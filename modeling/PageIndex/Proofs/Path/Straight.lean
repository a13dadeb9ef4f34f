import Mathlib.Data.List.Basic
import PageIndex.FileTree.Basic
import PageIndex.Path.Clean

/-!
# Straight paths

A path is straight when it is absolute and goes down from the root name by name: no piece of it is
empty, `.` or `..`. The normal form of an absolute path is that of names below the root
(`isRooted_clean`), which is straight unless there are none (`isRooted_iff`), and more text or a
further name at its end makes it straight (`IsRooted.withSuffix`, `IsRooted.child`).
-/

namespace PageIndex

open FileTree (pathOf)

namespace Path

/-- Whether a text can be the name of an entry of a directory. -/
def IsEntryName (s : String) : Prop :=
  s ≠ "" ∧ s ≠ "." ∧ s ≠ ".." ∧ '/' ∉ s.toList

/-- Whether a path is absolute and has no piece that is empty, `.` or `..`. The path of the root is
not straight, since an empty piece follows its slash. -/
structure IsStraight (p : Path) : Prop where
  absolute : p.isAbsolute = true
  clean : ∀ piece ∈ p.pieces.tail, piece ≠ [] ∧ piece ≠ ['.'] ∧ piece ≠ ['.', '.']

/-- Whether names lead to a path from the root; there may be none. -/
def IsRooted (p : Path) : Prop :=
  ∃ names, (∀ n ∈ names, IsEntryName n) ∧ p = pathOf names

variable {p q : Path} {names : List String} {s : String}

/-- Paths with the same characters are the same. -/
theorem eq_of_chars_eq (h : p.chars = q.chars) : p = q := by
  cases p
  cases q
  exact congrArg Path.mk (String.toList_inj.1 h)

/-- An absolute path is a slash and a rest. -/
theorem isAbsolute_iff : p.isAbsolute = true ↔ ∃ rest, p.chars = '/' :: rest := by
  rw [isAbsolute, beq_iff_eq, List.head?_eq_some_iff]

section Names

/-- A name by its characters. -/
theorem isEntryName_iff :
    IsEntryName s ↔
      (s.toList ≠ [] ∧ s.toList ≠ ['.'] ∧ s.toList ≠ ['.', '.']) ∧ '/' ∉ s.toList := by
  have text (t : String) : s = t ↔ s.toList = t.toList := String.toList_inj.symm
  rw [IsEntryName, Ne, Ne, Ne, text "", text ".", text "..", and_assoc, and_assoc]
  rfl

/-- A text without a slash that has three characters is a name. -/
theorem isEntryName_of_length (long : 3 ≤ s.toList.length) (alone : '/' ∉ s.toList) :
    IsEntryName s := by
  refine isEntryName_iff.2 ⟨⟨?_, ?_, ?_⟩, alone⟩
  all_goals
    intro h
    rw [h] at long
    revert long
    decide

/-- The component of a name. -/
theorem inner?_toList (h : IsEntryName s) : inner? s.toList = some (.name s) := by
  obtain ⟨⟨filled, here, up⟩, -⟩ := isEntryName_iff.1 h
  rw [inner?, if_neg (by simp [isVoidPiece, filled, here]), if_neg up, String.ofList_toList]

/-- A piece inside a path goes up or is a name, if it leaves a trace. -/
theorem inner?_cases {piece : List Char} {c : Component} (alone : '/' ∉ piece)
    (h : inner? piece = some c) : c = .up ∨ ∃ s, IsEntryName s ∧ c = .name s := by
  rw [inner?] at h
  split at h
  · cases h
  · next kept =>
    split at h
    · cases h
      exact .inl rfl
    · next up =>
      cases h
      simp only [isVoidPiece, Bool.or_eq_true, beq_iff_eq, not_or] at kept
      refine .inr ⟨String.ofList piece, isEntryName_iff.2 ?_, rfl⟩
      rw [String.toList_ofList]
      exact ⟨⟨kept.1, kept.2, up⟩, alone⟩

end Names

section PathOf

/-- The text of the path of names. -/
theorem chars_pathOf (names : List String) :
    (pathOf names).chars = '/' :: Text.joinWith ['/'] (names.map String.toList) := by
  cases names with
  | nil => rfl
  | cons name rest =>
    have texts : rest.map (Component.toChars ∘ Component.name) = rest.map String.toList := rfl
    rw [pathOf, List.map_cons, ofComponents, chars, ofChars, String.toList_ofList]
    · simp [Component.toChars, Text.joinWith, texts]
    · rintro ⟨⟩

/-- The path of names is absolute. -/
theorem isAbsolute_pathOf (names : List String) : (pathOf names).isAbsolute = true :=
  isAbsolute_iff.2 ⟨_, chars_pathOf names⟩

/-- A rooted path is absolute. -/
theorem IsRooted.isAbsolute (h : p.IsRooted) : p.isAbsolute = true := by
  obtain ⟨names, -, rfl⟩ := h
  exact isAbsolute_pathOf names

/-- The pieces of the path of names. -/
theorem pieces_pathOf (nonempty : names ≠ []) (h : ∀ n ∈ names, IsEntryName n) :
    (pathOf names).pieces = [] :: names.map String.toList := by
  have alone : ∀ piece ∈ names.map String.toList, '/' ∉ piece := by
    intro piece hp
    obtain ⟨n, hn, rfl⟩ := List.mem_map.1 hp
    exact (h n hn).2.2.2
  rw [pieces, chars_pathOf, Text.splitOn, if_pos rfl,
    Text.splitOn_joinWith (mt List.map_eq_nil_iff.1 nonempty) alone]

/-- The components of the path of names. -/
theorem components_pathOf (h : ∀ n ∈ names, IsEntryName n) :
    (pathOf names).components = .root :: names.map .name := by
  by_cases nothing : names = []
  · subst nothing
    rfl
  · have inner : (names.map String.toList).filterMap inner? = names.map .name := by
      rw [List.filterMap_map, ← List.filterMap_eq_map]
      exact List.filterMap_congr fun n hn => inner?_toList (h n hn)
    rw [components, pieces_pathOf nothing h]
    simp [isAbsolute_pathOf, first?, inner]

/-- Straight paths are those of names, of which there is at least one. -/
theorem isStraight_iff_pathOf :
    p.IsStraight ↔ ∃ names, names ≠ [] ∧ (∀ n ∈ names, IsEntryName n) ∧ p = pathOf names := by
  constructor
  · rintro ⟨absolute, clean⟩
    obtain ⟨rest, written⟩ := isAbsolute_iff.1 absolute
    have tail : p.pieces.tail = Text.splitOn '/' rest := by
      rw [pieces, written, Text.splitOn, if_pos rfl, List.tail_cons]
    have back : ((Text.splitOn '/' rest).map String.ofList).map String.toList =
        Text.splitOn '/' rest := by
      simp
    rw [tail] at clean
    refine ⟨(Text.splitOn '/' rest).map String.ofList, ?_, ?_, ?_⟩
    · exact mt List.map_eq_nil_iff.1 (Text.splitOn_ne_nil '/' rest)
    · intro n hn
      obtain ⟨piece, hp, rfl⟩ := List.mem_map.1 hn
      rw [isEntryName_iff, String.toList_ofList]
      exact ⟨clean piece hp, Text.notMem_of_mem_splitOn hp⟩
    · apply eq_of_chars_eq
      rw [chars_pathOf, back, Text.joinWith_splitOn, written]
  · rintro ⟨names, nonempty, h, rfl⟩
    refine ⟨isAbsolute_pathOf names, fun piece hp => ?_⟩
    rw [pieces_pathOf nonempty h, List.tail_cons] at hp
    obtain ⟨n, hn, rfl⟩ := List.mem_map.1 hp
    exact (isEntryName_iff.1 (h n hn)).1

end PathOf

section Clean

/-- The components of an absolute path after the root go up or are names. -/
theorem components_of_absolute (h : p.isAbsolute = true) :
    ∃ cs, p.components = .root :: cs ∧
      ∀ c ∈ cs, c = .up ∨ ∃ s, IsEntryName s ∧ c = .name s := by
  obtain ⟨rest, written⟩ := isAbsolute_iff.1 h
  have parts : p.pieces = [] :: Text.splitOn '/' rest := by
    rw [pieces, written, Text.splitOn, if_pos rfl]
  refine ⟨(Text.splitOn '/' rest).filterMap inner?, by simp [components, parts, h, first?], ?_⟩
  intro c hc
  obtain ⟨piece, hp, hi⟩ := List.mem_filterMap.1 hc
  exact inner?_cases (Text.notMem_of_mem_splitOn hp) hi

private theorem exists_cleanStep {c : Component} (names : List String)
    (hc : c = .up ∨ ∃ s, IsEntryName s ∧ c = .name s) (h : ∀ n ∈ names, IsEntryName n) :
    ∃ more : List String, (∀ n ∈ more, IsEntryName n) ∧
      cleanStep (names.map .name ++ [.root]) c = more.map .name ++ [.root] := by
  rcases hc with rfl | ⟨s, hs, rfl⟩
  · cases names with
    | nil => exact ⟨[], h, rfl⟩
    | cons n above => exact ⟨above, fun m hm => h m (List.mem_cons_of_mem n hm), rfl⟩
  · exact ⟨s :: names, List.forall_mem_cons.2 ⟨hs, h⟩, rfl⟩

private theorem exists_foldl_cleanStep {cs : List Component} (names : List String)
    (hcs : ∀ c ∈ cs, c = .up ∨ ∃ s, IsEntryName s ∧ c = .name s)
    (h : ∀ n ∈ names, IsEntryName n) :
    ∃ more : List String, (∀ n ∈ more, IsEntryName n) ∧
      cs.foldl cleanStep (names.map .name ++ [.root]) = more.map .name ++ [.root] := by
  induction cs generalizing names with
  | nil => exact ⟨names, h, rfl⟩
  | cons c rest ih =>
    obtain ⟨next, hnext, step⟩ := exists_cleanStep names (hcs c List.mem_cons_self) h
    rw [List.foldl_cons, step]
    exact ih next (fun d hd => hcs d (List.mem_cons_of_mem c hd)) hnext

/-- The normal form of an absolute path is the path of names. -/
theorem isRooted_clean (h : p.isAbsolute = true) : p.clean.IsRooted := by
  obtain ⟨cs, parts, hcs⟩ := components_of_absolute h
  obtain ⟨names, hn, folded⟩ := exists_foldl_cleanStep [] hcs fun n hn => nomatch hn
  refine ⟨names.reverse, fun n hm => hn n (List.mem_reverse.1 hm), ?_⟩
  have cleaned : cleanComponents p.components = .root :: names.reverse.map .name := by
    have start : p.components.foldl cleanStep [] = cs.foldl cleanStep [.root] := by
      rw [parts]
      rfl
    rw [cleanComponents, start]
    exact (congrArg List.reverse folded).trans (by simp)
  rw [clean, cleaned, pathOf]

/-- Names are added one after the other. -/
theorem foldl_cleanStep_names (out : List Component) (names : List String) :
    (names.map Component.name).foldl cleanStep out = (names.map .name).reverse ++ out := by
  induction names generalizing out with
  | nil => rfl
  | cons n rest ih =>
    rw [List.map_cons, List.foldl_cons, ih]
    simp [cleanStep]

/-- The reduced components of a path with names are its components. -/
theorem cleanComponents_names (names : List String) :
    cleanComponents (.root :: names.map .name) = .root :: names.map .name := by
  have start : (Component.root :: names.map .name).foldl cleanStep [] =
      (names.map Component.name).foldl cleanStep [.root] := rfl
  rw [cleanComponents, start, foldl_cleanStep_names]
  simp

/-- A rooted path is straight or the path of the root. -/
theorem isRooted_iff : p.IsRooted ↔ p.IsStraight ∨ p = ⟨"/"⟩ := by
  have root : pathOf [] = ⟨"/"⟩ := rfl
  rw [isStraight_iff_pathOf]
  constructor
  · rintro ⟨names, h, rfl⟩
    by_cases nothing : names = []
    · exact .inr (nothing ▸ root)
    · exact .inl ⟨names, nothing, h, rfl⟩
  · rintro (⟨names, -, h, rfl⟩ | rfl)
    · exact ⟨names, h, rfl⟩
    · exact ⟨[], by simp, root.symm⟩

end Clean

section Ends

/-- What is seen from an absolute path is absolute. -/
theorem isAbsolute_join (h : p.isAbsolute = true) (q : Path) : (p.join q).isAbsolute = true := by
  obtain ⟨rest, written⟩ := isAbsolute_iff.1 h
  rw [chars] at written
  unfold join
  split
  · assumption
  · split
    · exact isAbsolute_iff.2 ⟨rest ++ q.chars, by simp [chars, written]⟩
    · exact isAbsolute_iff.2 ⟨rest ++ '/' :: q.chars, by simp [chars, written]⟩

/-- A straight path stands in a directory with an absolute path. -/
theorem IsStraight.exists_parent? (h : p.IsStraight) :
    ∃ d, p.parent? = some d ∧ d.isAbsolute = true := by
  obtain ⟨names, nonempty, hn, rfl⟩ := isStraight_iff_pathOf.1 h
  obtain ⟨init, last, rfl⟩ := (List.eq_nil_or_concat' names).resolve_left nonempty
  refine ⟨pathOf init, ?_, isAbsolute_pathOf init⟩
  have parts : (pathOf (init ++ [last])).components.reverse =
      .name last :: (init.map Component.name).reverse ++ [.root] := by
    rw [components_pathOf hn]
    simp
  rw [parent?, parts]
  simp [pathOf]

/-- The last name stands at the end of a path. -/
theorem exists_chars_pathOf_concat (init : List String) :
    ∃ before, ∀ last, (pathOf (init ++ [last])).chars = before ++ last.toList := by
  by_cases nothing : init = []
  · exact ⟨['/'], fun last => by rw [nothing, List.nil_append, chars_pathOf]; rfl⟩
  · refine ⟨(pathOf init).chars ++ ['/'], fun last => ?_⟩
    rw [chars_pathOf, List.map_append, List.map_singleton,
      Text.joinWith_append_singleton _ (mt List.map_eq_nil_iff.1 nothing), chars_pathOf]
    simp

/-- A text at the end of a path stands at the end of its last name. -/
theorem withSuffix_pathOf_concat (init : List String) (last s : String) :
    (pathOf (init ++ [last])).withSuffix s = pathOf (init ++ [last ++ s]) := by
  obtain ⟨before, ends⟩ := exists_chars_pathOf_concat init
  apply eq_of_chars_eq
  calc ((pathOf (init ++ [last])).withSuffix s).chars
      = (pathOf (init ++ [last])).chars ++ s.toList := String.toList_append
    _ = before ++ (last.toList ++ s.toList) := by rw [ends, List.append_assoc]
    _ = (pathOf (init ++ [last ++ s])).chars := by rw [ends, String.toList_append]

/-- A rooted path is straight with a text at its end that is long enough and has no slash. -/
theorem IsRooted.withSuffix (h : p.IsRooted) (long : 3 ≤ s.toList.length)
    (alone : '/' ∉ s.toList) : (p.withSuffix s).IsStraight := by
  obtain ⟨names, hn, rfl⟩ := h
  rw [isStraight_iff_pathOf]
  rcases List.eq_nil_or_concat' names with rfl | ⟨init, last, rfl⟩
  · have named := isEntryName_of_length long alone
    refine ⟨[s], by simp, List.forall_mem_singleton.2 named, eq_of_chars_eq ?_⟩
    rw [chars_pathOf]
    exact String.toList_append
  · obtain ⟨hinit, hlast⟩ := List.forall_mem_append.1 hn
    have named := List.forall_mem_singleton.1 hlast
    have longer : IsEntryName (last ++ s) := by
      apply isEntryName_of_length
      · rw [String.toList_append, List.length_append]
        omega
      · rw [String.toList_append, List.mem_append, not_or]
        exact ⟨named.2.2.2, alone⟩
    refine ⟨init ++ [last ++ s], by simp, ?_, withSuffix_pathOf_concat init last s⟩
    exact List.forall_mem_append.2 ⟨hinit, List.forall_mem_singleton.2 longer⟩

/-- The path of names does not end with a slash, if there are any. -/
theorem getLast?_chars_pathOf (below : names ≠ []) (h : ∀ n ∈ names, IsEntryName n) :
    (pathOf names).chars.getLast? ≠ some '/' := by
  obtain ⟨init, last, rfl⟩ := (List.eq_nil_or_concat' names).resolve_left below
  obtain ⟨before, ends⟩ := exists_chars_pathOf_concat init
  obtain ⟨⟨filled, -⟩, alone⟩ := isEntryName_iff.1 (h last (by simp))
  rw [ends, List.getLast?_append_of_ne_nil _ filled]
  exact fun slash => alone (List.mem_of_getLast? slash)

/-- A further name leads to the entry of a directory. -/
theorem child_pathOf (h : ∀ n ∈ names, IsEntryName n) (hs : IsEntryName s) :
    (pathOf names).child s = pathOf (names ++ [s]) := by
  have relative : ¬ (Path.mk s).isAbsolute = true := by
    rw [isAbsolute_iff]
    rintro ⟨rest, written⟩
    have slash : '/' ∈ s.toList := by
      rw [show s.toList = '/' :: rest from written]
      exact List.mem_cons_self
    exact hs.2.2.2 slash
  rw [Path.child, join, if_neg relative]
  apply eq_of_chars_eq
  by_cases nothing : names = []
  · subst nothing
    rw [if_pos (by decide), List.nil_append, chars_pathOf]
    exact String.toList_append
  · have open_end : ¬ ((pathOf names).chars.isEmpty ||
        (pathOf names).chars.getLast? == some '/') = true := by
      rw [Bool.or_eq_true, beq_iff_eq, not_or]
      exact ⟨by simp [chars_pathOf], getLast?_chars_pathOf nothing h⟩
    rw [if_neg open_end, chars_pathOf, List.map_append, List.map_singleton,
      Text.joinWith_append_singleton _ (mt List.map_eq_nil_iff.1 nothing)]
    show ((pathOf names).text ++ "/" ++ s).toList = _
    rw [String.toList_append, String.toList_append]
    show (pathOf names).chars ++ ['/'] ++ s.toList = _
    rw [chars_pathOf]
    simp

/-- An entry of a directory with a rooted path has a straight one. -/
theorem IsRooted.child (h : p.IsRooted) (hs : IsEntryName s) : (p.child s).IsStraight := by
  obtain ⟨names, hn, rfl⟩ := h
  rw [child_pathOf hn hs, isStraight_iff_pathOf]
  exact ⟨names ++ [s], by simp, List.forall_mem_append.2 ⟨hn, List.forall_mem_singleton.2 hs⟩, rfl⟩

end Ends

end Path

end PageIndex
