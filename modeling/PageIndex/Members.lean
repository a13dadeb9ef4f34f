/-!
# Named entries

A list of named entries in which each name stands once: the members of an object, the entries
of a directory. Writing an entry that is already there replaces its value and keeps its place;
a new one goes to the end.
-/

namespace PageIndex.Members

variable {α : Type}

/-- The entries after giving `key` the value `value`. -/
def write (key : String) (value : α) : List (String × α) → List (String × α)
  | [] => [(key, value)]
  | (k, v) :: rest => if k = key then (key, value) :: rest else (k, v) :: write key value rest

/-- The entries without the one of the given name. -/
def erase (key : String) (entries : List (String × α)) : List (String × α) :=
  entries.filter (·.1 ≠ key)

/-- The entries written one after the other, so that a name has its first place and its last
value. -/
def ofList (entries : List (String × α)) : List (String × α) :=
  entries.foldl (fun acc m => write m.1 m.2 acc) []

/-- The names in their order. -/
def names (entries : List (String × α)) : List String :=
  entries.map (·.1)

/-- An entry just written is found. -/
theorem lookup_write_self (key : String) (value : α) (entries : List (String × α)) :
    (write key value entries).lookup key = some value := by
  induction entries with
  | nil => simp [write]
  | cons m rest ih =>
    obtain ⟨k, v⟩ := m
    by_cases h : k = key
    · simp [write, h]
    · have h' : (key == k) = false := by simpa using fun e => h e.symm
      simp [write, h, List.lookup_cons, h', ih]

/-- Writing an entry leaves the others as they are. -/
theorem lookup_write_of_ne {key other : String} (value : α) (entries : List (String × α))
    (h : other ≠ key) : (write key value entries).lookup other = entries.lookup other := by
  have hok : (other == key) = false := by simpa using h
  induction entries with
  | nil => simp [write, List.lookup_cons, hok]
  | cons m rest ih =>
    obtain ⟨k, v⟩ := m
    by_cases hk : k = key
    · subst hk; simp [write, List.lookup_cons, hok]
    · simp [write, hk, List.lookup_cons, ih]

/-- The names after a write: the old ones, with a new one at the end. -/
theorem names_write (key : String) (value : α) (entries : List (String × α)) :
    names (write key value entries) =
      if key ∈ names entries then names entries else names entries ++ [key] := by
  induction entries with
  | nil => simp [write, names]
  | cons m rest ih =>
    obtain ⟨k, v⟩ := m
    by_cases h : k = key
    · subst h; simp [write, names]
    · have h' : ¬key = k := fun e => h e.symm
      simp only [names] at ih
      simp only [write, h, if_false, names, List.map_cons, ih, List.mem_cons, h', false_or]
      split <;> simp_all

/-- A name that is new goes to the end. -/
theorem write_of_notMem {key : String} (value : α) {entries : List (String × α)}
    (h : key ∉ names entries) : write key value entries = entries ++ [(key, value)] := by
  induction entries with
  | nil => rfl
  | cons m rest ih =>
    obtain ⟨other, absent⟩ := not_or.1 (mt List.mem_cons.2 h)
    rw [write, if_neg (Ne.symm other), ih absent, List.cons_append]

private theorem foldl_write {before entries : List (String × α)}
    (once : (names (before ++ entries)).Nodup) :
    entries.foldl (fun acc m => write m.1 m.2 acc) before = before ++ entries := by
  induction entries generalizing before with
  | nil => rw [List.foldl_nil, List.append_nil]
  | cons m rest ih =>
    have fresh : m.1 ∉ names before := by
      rw [names, List.map_append, List.map_cons, List.nodup_append] at once
      exact fun hm => once.2.2 m.1 hm m.1 List.mem_cons_self rfl
    rw [List.append_cons] at once ⊢
    rw [List.foldl_cons, write_of_notMem m.2 fresh]
    exact ih once

/-- Entries with each name once are written one after the other as they are. -/
theorem ofList_eq_self {entries : List (String × α)} (once : (names entries).Nodup) :
    ofList entries = entries :=
  foldl_write once

/-- An entry after a write is the one just written or an old one. -/
theorem eq_or_mem_of_mem_write {key name : String} {value v : α} {entries : List (String × α)}
    (h : (name, v) ∈ write key value entries) : v = value ∨ (name, v) ∈ entries := by
  induction entries with
  | nil =>
    cases List.mem_singleton.1 h
    exact .inl rfl
  | cons m rest ih =>
    rw [write] at h
    split at h
    · rcases List.mem_cons.1 h with hm | hm
      · cases hm
        exact .inl rfl
      · exact .inr (List.mem_cons_of_mem _ hm)
    · rcases List.mem_cons.1 h with hm | hm
      · exact .inr (hm ▸ List.mem_cons_self)
      · exact (ih hm).imp id (List.mem_cons_of_mem _)

/-- Writing leaves each name once. -/
theorem nodup_names_write {key : String} {value : α} {entries : List (String × α)}
    (h : (names entries).Nodup) : (names (write key value entries)).Nodup := by
  rw [names_write]
  split
  · exact h
  · next hn =>
    rw [List.nodup_append]
    refine ⟨h, List.nodup_cons.2 ⟨List.not_mem_nil, List.nodup_nil⟩, ?_⟩
    intro name hk other ho same
    rw [List.mem_singleton.1 ho] at same
    exact hn (same ▸ hk)

/-- What a name leads to is an entry. -/
theorem mem_of_lookup {name : String} {value : α} {entries : List (String × α)}
    (h : entries.lookup name = some value) : (name, value) ∈ entries := by
  obtain ⟨before, after, rfl, -⟩ := List.lookup_eq_some_iff.1 h
  exact List.mem_append_right _ List.mem_cons_self

/-- When each name stands once, it leads to its entry. -/
theorem lookup_eq_some_iff {name : String} {value : α} {entries : List (String × α)}
    (once : (names entries).Nodup) :
    entries.lookup name = some value ↔ (name, value) ∈ entries := by
  refine ⟨mem_of_lookup, fun h => ?_⟩
  induction entries with
  | nil => cases h
  | cons m rest ih =>
    obtain ⟨absent, once⟩ := List.nodup_cons.1 once
    rw [List.lookup_cons]
    rcases List.mem_cons.1 h with rfl | hm
    · simp
    · have other : (name == m.1) = false := by
        rw [beq_eq_false_iff_ne]
        rintro rfl
        exact absent (List.mem_map.2 ⟨_, hm, rfl⟩)
      simp only [other]
      exact ih once hm

end PageIndex.Members
