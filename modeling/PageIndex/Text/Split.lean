/-!
# Splitting and joining

A text as the list of its pieces between the occurrences of one character. Splitting and
joining with the same character undo each other.
-/

namespace PageIndex.Text

/-- The pieces between the occurrences of `sep`; there is one more piece than occurrences. -/
def splitOn (sep : Char) : List Char → List (List Char)
  | [] => [[]]
  | c :: cs =>
    if c = sep then [] :: splitOn sep cs
    else
      match splitOn sep cs with
      | [] => [[c]]
      | piece :: rest => (c :: piece) :: rest

/-- The pieces with `sep` between them. -/
def joinWith (sep : List Char) : List (List Char) → List Char
  | [] => []
  | [piece] => piece
  | piece :: next :: rest => piece ++ sep ++ joinWith sep (next :: rest)

/-- Joining is the library's intercalation. -/
theorem joinWith_eq_intercalate (sep : List Char) (pieces : List (List Char)) :
    joinWith sep pieces = sep.intercalate pieces := by
  induction pieces with
  | nil => rfl
  | cons piece rest ih =>
    cases rest with
    | nil => exact List.intercalate_singleton.symm
    | cons next more => rw [joinWith, ih, List.intercalate_cons_cons]

/-- A text has at least one piece. -/
theorem splitOn_ne_nil (sep : Char) (s : List Char) : splitOn sep s ≠ [] := by
  cases s with
  | nil => simp [splitOn]
  | cons c cs =>
    unfold splitOn
    split
    · simp
    · split <;> simp

/-- Joining the pieces of a text gives the text back. -/
theorem joinWith_splitOn (sep : Char) (s : List Char) : joinWith [sep] (splitOn sep s) = s := by
  induction s with
  | nil => rfl
  | cons c cs ih =>
    unfold splitOn
    split
    next h =>
      cases hp : splitOn sep cs with
      | nil => exact absurd hp (splitOn_ne_nil sep cs)
      | cons p ps => rw [hp] at ih; simp [joinWith, ih, h]
    next h =>
      cases hp : splitOn sep cs with
      | nil => exact absurd hp (splitOn_ne_nil sep cs)
      | cons p ps =>
        rw [hp] at ih
        cases ps with
        | nil => simp [joinWith] at ih ⊢; exact ih
        | cons q qs => simp [joinWith] at ih ⊢; exact ih

/-- A text without the character is one piece. -/
theorem splitOn_of_notMem {sep : Char} {s : List Char} (h : sep ∉ s) : splitOn sep s = [s] := by
  induction s with
  | nil => rfl
  | cons c cs ih =>
    obtain ⟨other, absent⟩ := not_or.1 (mt List.mem_cons.2 h)
    rw [splitOn, if_neg (Ne.symm other), ih absent]

/-- The pieces of two texts with the character between them. -/
theorem splitOn_append_cons (sep : Char) (s t : List Char) :
    splitOn sep (s ++ sep :: t) = splitOn sep s ++ splitOn sep t := by
  induction s with
  | nil => simp [splitOn]
  | cons c cs ih =>
    rw [List.cons_append, splitOn, splitOn, ih]
    split
    · rfl
    · cases hp : splitOn sep cs with
      | nil => exact absurd hp (splitOn_ne_nil sep cs)
      | cons piece rest => rfl

/-- No piece has the character in it. -/
theorem notMem_of_mem_splitOn {sep : Char} {s piece : List Char} (h : piece ∈ splitOn sep s) :
    sep ∉ piece := by
  induction s generalizing piece with
  | nil =>
    rw [List.mem_singleton.1 h]
    exact List.not_mem_nil
  | cons c cs ih =>
    rw [splitOn] at h
    split at h
    · rcases List.mem_cons.1 h with rfl | hp
      · exact List.not_mem_nil
      · exact ih hp
    · next other =>
      cases hs : splitOn sep cs with
      | nil => exact absurd hs (splitOn_ne_nil sep cs)
      | cons first rest =>
        rw [hs] at h ih
        rcases List.mem_cons.1 h with rfl | hp
        · rw [List.mem_cons, not_or]
          exact ⟨Ne.symm other, ih List.mem_cons_self⟩
        · exact ih (List.mem_cons_of_mem first hp)

/-- The joined pieces of two lists stand one after the other. -/
theorem joinWith_append (sep : List Char) {pieces others : List (List Char)} (h : pieces ≠ [])
    (h' : others ≠ []) :
    joinWith sep (pieces ++ others) = joinWith sep pieces ++ sep ++ joinWith sep others := by
  induction pieces with
  | nil => exact absurd rfl h
  | cons piece rest ih =>
    cases rest with
    | nil =>
      cases others with
      | nil => exact absurd rfl h'
      | cons other more => rfl
    | cons next rest =>
      rw [List.cons_append, List.cons_append, joinWith, ← List.cons_append,
        ih (List.cons_ne_nil next rest), joinWith]
      simp only [List.append_assoc]

/-- The last of several pieces stands after the joined others. -/
theorem joinWith_append_singleton (sep : List Char) {pieces : List (List Char)} (h : pieces ≠ [])
    (last : List Char) : joinWith sep (pieces ++ [last]) = joinWith sep pieces ++ sep ++ last :=
  joinWith_append sep h (List.cons_ne_nil last [])

/-- What stands before the first occurrence of a character is known from the text. -/
theorem eq_of_append_cons_eq {sep : Char} {a b s t : List Char} (ha : sep ∉ a) (hb : sep ∉ b)
    (h : a ++ sep :: s = b ++ sep :: t) : a = b := by
  have pieces := congrArg (splitOn sep) h
  rw [splitOn_append_cons, splitOn_append_cons, splitOn_of_notMem ha, splitOn_of_notMem hb]
    at pieces
  exact (List.cons.inj pieces).1

/-- Splitting joined pieces gives them back, if the character is in none of them. -/
theorem splitOn_joinWith {sep : Char} {pieces : List (List Char)} (h : pieces ≠ [])
    (alone : ∀ piece ∈ pieces, sep ∉ piece) : splitOn sep (joinWith [sep] pieces) = pieces := by
  induction pieces with
  | nil => exact absurd rfl h
  | cons piece rest ih =>
    have first : splitOn sep piece = [piece] := splitOn_of_notMem (alone piece List.mem_cons_self)
    cases rest with
    | nil => exact first
    | cons next rest =>
      rw [joinWith, List.append_assoc, List.singleton_append, splitOn_append_cons, first,
        ih (List.cons_ne_nil next rest) fun p hp => alone p (List.mem_cons_of_mem piece hp),
        List.singleton_append]

/-- The characters of a piece stand in the joined text. -/
theorem mem_joinWith {sep piece : List Char} {pieces : List (List Char)} {c : Char}
    (h : piece ∈ pieces) (hc : c ∈ piece) : c ∈ joinWith sep pieces := by
  induction pieces with
  | nil => cases h
  | cons first rest ih =>
    cases rest with
    | nil =>
      rw [List.mem_singleton.1 h] at hc
      exact hc
    | cons next rest =>
      rw [joinWith, List.mem_append, List.mem_append]
      rcases List.mem_cons.1 h with rfl | hr
      · exact .inl (.inl hc)
      · exact .inr (ih hr)

/-- The characters of joined pieces come from the pieces and from what stands between them. -/
theorem mem_or_exists_of_mem_joinWith {sep : List Char} {pieces : List (List Char)} {c : Char}
    (h : c ∈ joinWith sep pieces) : c ∈ sep ∨ ∃ piece ∈ pieces, c ∈ piece := by
  induction pieces with
  | nil => cases h
  | cons piece rest ih =>
    cases rest with
    | nil => exact .inr ⟨piece, List.mem_cons_self, h⟩
    | cons next rest =>
      rw [joinWith, List.mem_append, List.mem_append] at h
      rcases h with (hp | hs) | hr
      · exact .inr ⟨piece, List.mem_cons_self, hp⟩
      · exact .inl hs
      · rcases ih hr with hs | ⟨other, ho, hc⟩
        · exact .inl hs
        · exact .inr ⟨other, List.mem_cons_of_mem piece ho, hc⟩

/-- The characters of a piece stand in the text that was split. -/
theorem mem_of_mem_splitOn {sep c : Char} {s piece : List Char} (h : piece ∈ splitOn sep s)
    (hc : c ∈ piece) : c ∈ s := by
  rw [← joinWith_splitOn sep s]
  exact mem_joinWith h hc

/-- Joined pieces are not empty when one of them is not. -/
theorem joinWith_ne_nil {sep piece : List Char} {pieces : List (List Char)} (h : piece ∈ pieces)
    (filled : piece ≠ []) : joinWith sep pieces ≠ [] := by
  obtain ⟨c, hc⟩ := List.exists_mem_of_ne_nil piece filled
  exact List.ne_nil_of_mem (mem_joinWith h hc)

/-- The text after `start`, if it begins with it. -/
def dropStart? (start : List Char) (s : List Char) : Option (List Char) :=
  if start.isPrefixOf s then some (s.drop start.length) else none

/-- A text has something after `start` exactly when it is made of the two. -/
theorem dropStart?_eq_some_iff {start s rest : List Char} :
    dropStart? start s = some rest ↔ s = start ++ rest := by
  rw [dropStart?]
  constructor
  · intro h
    split at h
    · next hp =>
      cases h
      obtain ⟨rest, rfl⟩ := List.isPrefixOf_iff_prefix.1 hp
      rw [List.drop_left]
    · cases h
  · rintro rfl
    rw [if_pos (List.isPrefixOf_iff_prefix.2 (List.prefix_append start rest)), List.drop_left]

/-- The text before `ending`, if it ends with it. -/
def dropEnd? (ending : List Char) (s : List Char) : Option (List Char) :=
  if ending.isSuffixOf s then some (s.take (s.length - ending.length)) else none

/-- A text has something before `ending` exactly when it is made of the two. -/
theorem dropEnd?_eq_some_iff {ending s stem : List Char} :
    dropEnd? ending s = some stem ↔ s = stem ++ ending := by
  rw [dropEnd?]
  constructor
  · intro h
    split at h
    · next hs =>
      cases h
      obtain ⟨stem, rfl⟩ := List.isSuffixOf_iff_suffix.1 hs
      rw [List.length_append, Nat.add_sub_cancel, List.take_left]
    · cases h
  · rintro rfl
    rw [if_pos (List.isSuffixOf_iff_suffix.2 (List.suffix_append stem ending)),
      List.length_append, Nat.add_sub_cancel, List.take_left]

end PageIndex.Text
