import Mathlib.Data.List.Induction
import PageIndex.Members
import PageIndex.Proofs.First

/-!
# Entries written one after the other

Entries are written under names, and a name may be written again. It has the place at which it was
written first (`Members.pairwise_ofList`) and the value that was written last
(`Members.mem_ofList_iff`).
-/

namespace PageIndex

namespace Members

variable {α : Type} {entries : List (String × α)} {key : String} {v : α}

/-- The last entry is written last. -/
theorem ofList_append_singleton (entries : List (String × α)) (m : String × α) :
    ofList (entries ++ [m]) = write m.1 m.2 (ofList entries) := by
  simp [ofList]

/-- Each name stands once, however often it was written. -/
theorem nodup_names_ofList (entries : List (String × α)) : (names (ofList entries)).Nodup := by
  induction entries using List.reverseRecOn with
  | nil => exact List.nodup_nil
  | append_singleton entries m ih =>
    rw [ofList_append_singleton]
    exact nodup_names_write ih

/-- What a name leads to was written last under it. -/
theorem lookup_ofList (entries : List (String × α)) (key : String) :
    (ofList entries).lookup key = (entries.reverse.find? (·.1 == key)).map (·.2) := by
  induction entries using List.reverseRecOn with
  | nil => rfl
  | append_singleton entries m ih =>
    rw [ofList_append_singleton, List.reverse_append, List.reverse_singleton,
      List.singleton_append, List.find?_cons]
    by_cases same : m.1 = key
    · subst same
      rw [lookup_write_self, beq_self_eq_true]
      rfl
    · rw [lookup_write_of_ne _ _ (Ne.symm same), ih, beq_eq_false_iff_ne.2 same]

/-- An entry has the value that was written last under its name. -/
theorem mem_ofList_iff :
    (key, v) ∈ ofList entries ↔ First (fun m => m.1 = key) entries.reverse (key, v) := by
  have last (m : String × α) :
      entries.reverse.find? (·.1 == key) = some m ↔ First (fun m => m.1 = key) entries.reverse m :=
    find?_eq_some_iff_first fun m => beq_iff_eq
  rw [← lookup_eq_some_iff (nodup_names_ofList entries), lookup_ofList, ← last,
    Option.map_eq_some_iff]
  constructor
  · rintro ⟨m, found, rfl⟩
    obtain ⟨-, rfl⟩ := ((last m).1 found).mem_and_holds
    exact found
  · intro found
    exact ⟨(key, v), found, rfl⟩

/-- A name that was written is there. -/
theorem mem_names_ofList_iff :
    key ∈ names (ofList entries) ↔ ∃ m ∈ entries, m.1 = key := by
  constructor
  · intro h
    obtain ⟨⟨name, v⟩, hm, rfl⟩ := List.mem_map.1 h
    have written := (mem_ofList_iff.1 hm).mem_and_holds.1
    exact ⟨(name, v), List.mem_reverse.1 written, rfl⟩
  · rintro ⟨m, hm, same⟩
    obtain ⟨⟨name, v⟩, last⟩ :=
      exists_first (p := fun m => m.1 = key) (List.mem_reverse.2 hm) same
    obtain ⟨-, rfl⟩ := last.mem_and_holds
    exact List.mem_map.2 ⟨(name, v), mem_ofList_iff.2 last, rfl⟩

/-- Names stand in the order in which they were written first. -/
theorem pairwise_ofList (entries : List (String × α)) :
    (names (ofList entries)).Pairwise fun key other =>
      ∃ m, First (fun m => m.1 = key ∨ m.1 = other) entries m ∧ m.1 = key := by
  induction entries using List.reverseRecOn with
  | nil => exact .nil
  | append_singleton entries m ih =>
    have kept : (names (ofList entries)).Pairwise fun key other =>
        ∃ n, First (fun n => n.1 = key ∨ n.1 = other) (entries ++ [m]) n ∧ n.1 = key :=
      ih.imp fun ⟨n, first, same⟩ => ⟨n, first.append [m], same⟩
    rw [ofList_append_singleton, names_write]
    split
    · exact kept
    · next new =>
      refine List.pairwise_append.2 ⟨kept, List.pairwise_singleton _ _, ?_⟩
      intro key hk other ho
      cases List.mem_singleton.1 ho
      -- The first entry of an old name stands before the entry of the new one.
      obtain ⟨n, hn, same⟩ := mem_names_ofList_iff.1 hk
      obtain ⟨n, first⟩ := exists_first (p := fun n => n.1 = key) hn same
      have same := first.mem_and_holds.2
      refine ⟨n, First.append (first.mono (.inl same) ?_) [m], same⟩
      rintro y hy (hy' | hy')
      · exact hy'
      · exact absurd (mem_names_ofList_iff.2 ⟨y, hy, hy'⟩) new

/-- A name that is written again keeps its place and has its new value. -/
example : ofList [("a", 1), ("b", 2), ("a", 3)] = [("a", 3), ("b", 2)] := by decide

end Members

end PageIndex
