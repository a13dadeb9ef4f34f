import Mathlib.Data.List.Infix
import PageIndex.Proofs.Path.Normal

/-!
# Paths as seen from other paths

What is left of a path after some of its components has the others as its components
(`components_tail`), and it is a part of the text of the path (`chars_tail_isInfix`). So a path that
lies under another one is shown by the components that it has below it (`IsShownAs`,
`isShownAs_display`).
-/

namespace PageIndex

/-- Pieces that stand one after the other in a list make a part of what the list makes. -/
theorem Text.joinWith_isInfix (sep : List Char) {part pieces : List (List Char)}
    (h : part <:+: pieces) : joinWith sep part <:+: joinWith sep pieces := by
  obtain ⟨before, after, rfl⟩ := h
  by_cases nothing : part = []
  · rw [nothing]
    exact List.nil_infix
  · have start : joinWith sep part <+: joinWith sep (part ++ after) := by
      by_cases last : after = []
      · rw [last, List.append_nil]
      · rw [joinWith_append sep nothing last, List.append_assoc]
        exact List.prefix_append _ _
    have ending : joinWith sep (part ++ after) <:+ joinWith sep (before ++ (part ++ after)) := by
      by_cases first : before = []
      · rw [first, List.nil_append]
      · rw [joinWith_append sep first (by simp [nothing])]
        exact List.suffix_append _ _
    rw [List.append_assoc]
    exact start.isInfix.trans ending.isInfix

namespace Path

section Pieces

variable {piece : List Char} {pieces : List (List Char)}

/-- A piece inside a path has no component exactly when it leaves no trace. -/
theorem inner?_eq_none_iff : inner? piece = none ↔ isVoidPiece piece = true := by
  rw [inner?]
  split
  · next void => simp [void]
  · next kept =>
    split <;> simp [kept]

/-- The components of pieces without the first ones. -/
theorem filterMap_dropInner (n : Nat) (pieces : List (List Char)) :
    (dropInner n pieces).filterMap inner? = (pieces.filterMap inner?).drop n := by
  fun_induction dropInner n pieces with
  | case1 pieces => rfl
  | case2 n => simp
  | case3 n piece rest ih =>
    rw [ih, List.filterMap_cons]
    cases read : inner? piece with
    | none => rw [if_pos (inner?_eq_none_iff.1 read)]
    | some c =>
      have kept : ¬ isVoidPiece piece = true := by
        rw [← inner?_eq_none_iff, read]
        exact Option.some_ne_none c
      rw [if_neg kept, List.drop_succ_cons]

/-- Pieces that leave no trace can be dropped at the start. -/
theorem filterMap_dropWhile (pieces : List (List Char)) :
    (pieces.dropWhile isVoidPiece).filterMap inner? = pieces.filterMap inner? := by
  induction pieces with
  | nil => rfl
  | cons piece rest ih =>
    by_cases void : isVoidPiece piece = true
    · have traceless := inner?_eq_none_iff.2 void
      rw [List.dropWhile_cons_of_pos void, ih, List.filterMap_cons_none traceless]
    · rw [List.dropWhile_cons_of_neg void]

/-- Pieces that leave no trace can be dropped at the end. -/
theorem filterMap_trimVoidEnd (pieces : List (List Char)) :
    (trimVoidEnd pieces).filterMap inner? = pieces.filterMap inner? := by
  rw [trimVoidEnd, List.filterMap_reverse, filterMap_dropWhile, List.filterMap_reverse,
    List.reverse_reverse]

/-- Without pieces at the end that leave no trace, the others are left. -/
theorem trimVoidEnd_isPrefix (pieces : List (List Char)) : trimVoidEnd pieces <+: pieces := by
  rw [trimVoidEnd, ← List.reverse_suffix, List.reverse_reverse]
  exact List.dropWhile_suffix isVoidPiece

/-- Without the first components, the last pieces are left. -/
theorem dropInner_isSuffix (n : Nat) (pieces : List (List Char)) :
    dropInner n pieces <:+ pieces := by
  fun_induction dropInner n pieces with
  | case1 pieces => exact List.suffix_rfl
  | case2 n => exact List.suffix_rfl
  | case3 n piece rest ih => exact ih.trans (List.suffix_cons piece rest)

end Pieces

variable {p base : Path} {n : Nat} {piece : List Char} {rest : List (List Char)}

/-- The pieces of a path that is made of pieces. -/
theorem pieces_ofChars_joinWith (alone : ∀ other ∈ piece :: rest, '/' ∉ other) :
    (ofChars (Text.joinWith ['/'] (piece :: rest))).pieces = piece :: rest := by
  rw [pieces, chars, ofChars, String.toList_ofList]
  exact Text.splitOn_joinWith (List.cons_ne_nil piece rest) alone

/-- A path is absolute when its first piece is empty and there is another one. -/
theorem isAbsolute_eq_of_pieces (parts : p.pieces = piece :: rest) :
    p.isAbsolute = (piece.isEmpty && !rest.isEmpty) := by
  have alone : '/' ∉ piece := by
    apply Text.notMem_of_mem_splitOn (s := p.chars)
    rw [← pieces, parts]
    exact List.mem_cons_self
  have written : p.chars = Text.joinWith ['/'] (piece :: rest) := by
    rw [← parts, pieces, Text.joinWith_splitOn]
  rw [isAbsolute, written]
  cases piece with
  | nil =>
    cases rest <;> rfl
  | cons c cs =>
    have other : c ≠ '/' := by
      rintro rfl
      exact alone List.mem_cons_self
    cases rest <;> simp [Text.joinWith, other]

/-- The components of a path by its pieces. -/
theorem components_of_pieces (parts : p.pieces = piece :: rest) :
    p.components = (first? p.isAbsolute piece).toList ++ rest.filterMap inner? := by
  rw [components, parts]

/-- The components of a path that is made of pieces, the first of which leaves a trace. -/
theorem components_ofChars_joinWith {kept : List (List Char)}
    (alone : ∀ other ∈ kept, '/' ∉ other)
    (trace : ∀ first ∈ kept.head?, isVoidPiece first = false) :
    (ofChars (Text.joinWith ['/'] kept)).components = kept.filterMap inner? := by
  cases kept with
  | nil => rfl
  | cons piece rest =>
    have parts := pieces_ofChars_joinWith alone
    have kept := trace piece rfl
    simp only [isVoidPiece, Bool.or_eq_false_iff, beq_eq_false_iff_ne] at kept
    have relative : (ofChars (Text.joinWith ['/'] (piece :: rest))).isAbsolute = false := by
      rw [isAbsolute_eq_of_pieces parts]
      simp [kept.1]
    rw [components_of_pieces parts, relative, List.filterMap_cons]
    simp only [first?, Bool.false_eq_true, if_false, if_neg kept.2]
    cases inner? piece <;> rfl

/-- Void pieces at the end of a path can be taken off. -/
theorem components_tail_zero (p : Path) : (p.tail 0).components = p.components := by
  obtain ⟨piece, rest, parts⟩ := List.exists_cons_of_ne_nil (Text.splitOn_ne_nil '/' p.chars)
  rw [← pieces] at parts
  have alone : ∀ other ∈ piece :: rest, '/' ∉ other := by
    intro other ho
    rw [← parts, pieces] at ho
    exact Text.notMem_of_mem_splitOn ho
  have same := filterMap_trimVoidEnd rest
  rw [components_of_pieces parts, ← same]
  cases kept : trimVoidEnd rest with
  | nil =>
    simp only [tail, parts, kept]
    cases absolute : p.isAbsolute with
    | true =>
      have root : (ofChars ['/']).components = [.root] := rfl
      rw [if_pos rfl, root]
      rfl
    | false =>
      have single :=
        pieces_ofChars_joinWith (List.forall_mem_singleton.2 (alone piece List.mem_cons_self))
      rw [Text.joinWith] at single
      rw [if_neg Bool.false_ne_true, components_of_pieces single, isAbsolute_eq_of_pieces single]
      simp
  | cons first more =>
    have nonempty : rest ≠ [] := by
      rintro rfl
      cases kept
    have alone' : ∀ other ∈ piece :: first :: more, '/' ∉ other := by
      intro other ho
      rw [← kept] at ho
      exact alone other (List.cons_subset_cons piece (trimVoidEnd_isPrefix rest).subset ho)
    have parts' := pieces_ofChars_joinWith alone'
    simp only [tail, parts, kept]
    have filled : rest.isEmpty = false := List.isEmpty_eq_false_iff.2 nonempty
    rw [components_of_pieces parts', isAbsolute_eq_of_pieces parts', isAbsolute_eq_of_pieces parts,
      filled]
    rfl

/-- The pieces that are left of a path without its first `n + 1` components. -/
theorem exists_tail_succ (p : Path) (n : Nat) :
    ∃ kept, kept <:+: p.pieces ∧ p.tail (n + 1) = ofChars (Text.joinWith ['/'] kept) ∧
      (∀ first ∈ kept.head?, isVoidPiece first = false) ∧
      kept.filterMap inner? = p.components.drop (n + 1) := by
  obtain ⟨piece, rest, parts⟩ := List.exists_cons_of_ne_nil (Text.splitOn_ne_nil '/' p.chars)
  rw [← pieces] at parts
  rw [parts]
  obtain ⟨below, hb⟩ : ∃ below, below =
      if (first? p.isAbsolute piece).isSome then dropInner n rest else dropInner (n + 1) rest :=
    ⟨_, rfl⟩
  have last : below <:+ rest := by
    rw [hb]
    split
    · exact dropInner_isSuffix n rest
    · exact dropInner_isSuffix (n + 1) rest
  refine ⟨trimVoidEnd (below.dropWhile isVoidPiece), ?_, ?_, ?_, ?_⟩
  · have suffix : below.dropWhile isVoidPiece <:+ piece :: rest :=
      ((List.dropWhile_suffix isVoidPiece).trans last).trans (List.suffix_cons piece rest)
    exact (trimVoidEnd_isPrefix _).isInfix.trans suffix.isInfix
  · rw [hb]
    simp only [tail, parts]
  · intro first hf
    obtain ⟨after, split⟩ := trimVoidEnd_isPrefix (below.dropWhile isVoidPiece)
    have head : (below.dropWhile isVoidPiece).head? = some first := by
      rw [← split, List.head?_append_of_ne_nil, hf]
      rintro nothing
      rw [nothing] at hf
      cases hf
    have stop := List.head?_dropWhile_not isVoidPiece below
    rw [head] at stop
    simpa using stop
  · rw [filterMap_trimVoidEnd, filterMap_dropWhile, components_of_pieces parts, hb]
    split
    · next read =>
      obtain ⟨c, read⟩ := Option.isSome_iff_exists.1 read
      rw [filterMap_dropInner, read]
      rfl
    · next unread =>
      rw [filterMap_dropInner, Option.not_isSome_iff_eq_none.1 unread]
      rfl

/-- What is left of a path without its first components has the others. -/
theorem components_tail (p : Path) (n : Nat) : (p.tail n).components = p.components.drop n := by
  cases n with
  | zero => exact components_tail_zero p
  | succ n =>
    obtain ⟨kept, inside, made, trace, read⟩ := exists_tail_succ p n
    rw [made, ← read]
    apply components_ofChars_joinWith
    · intro other ho
      exact Text.notMem_of_mem_splitOn (inside.subset ho)
    · exact trace

/-- What is left of a path without its first components is a part of its text. -/
theorem chars_tail_isInfix (p : Path) (n : Nat) : (p.tail n).chars <:+: p.chars := by
  have written : p.chars = Text.joinWith ['/'] p.pieces := by
    rw [pieces, Text.joinWith_splitOn]
  cases n with
  | zero =>
    obtain ⟨piece, rest, parts⟩ := List.exists_cons_of_ne_nil (Text.splitOn_ne_nil '/' p.chars)
    rw [← pieces] at parts
    cases kept : trimVoidEnd rest with
    | nil =>
      simp only [tail, parts, kept]
      split
      · next absolute =>
        obtain ⟨more, start⟩ := isAbsolute_iff.1 absolute
        rw [start]
        exact ⟨[], more, rfl⟩
      · have first : [piece] <:+: piece :: rest := ⟨[], rest, rfl⟩
        have inside := Text.joinWith_isInfix ['/'] first
        rw [written, parts]
        simpa [chars, ofChars, Text.joinWith] using inside
    | cons first more =>
      have inside : piece :: first :: more <:+: piece :: rest := by
        rw [← kept]
        exact (List.cons_prefix_cons.2 ⟨rfl, trimVoidEnd_isPrefix rest⟩).isInfix
      simp only [tail, parts, kept]
      rw [written, parts, chars, ofChars, String.toList_ofList]
      exact Text.joinWith_isInfix ['/'] inside
  | succ n =>
    obtain ⟨kept, inside, made, -, -⟩ := exists_tail_succ p n
    rw [made, written, chars, ofChars, String.toList_ofList]
    exact Text.joinWith_isInfix ['/'] inside

/-- The text `shown` stands for the path `p` where paths are seen from `base`: a path under it is
shown by the components below it, in the words of its own text, and another path in full. -/
structure IsShownAs (p base : Path) (shown : String) : Prop where
  below : base.components <+: p.components →
    p.components = base.components ++ (Path.mk shown).components ∧ shown.toList <:+: p.chars
  elsewhere : ¬ base.components <+: p.components → shown = p.text

/-- A path is displayed by its components below the directory that it is seen from. -/
theorem isShownAs_display (p base : Path) : p.IsShownAs base (p.display base) := by
  constructor
  · intro under
    have rest : p.relativeTo? base = some (p.tail base.components.length) := by
      rw [relativeTo?, if_pos (List.isPrefixOf_iff_prefix.2 under)]
    rw [display, rest]
    constructor
    · have parts := components_tail p base.components.length
      obtain ⟨others, all⟩ := under
      rw [← all, List.drop_left] at parts
      rw [← all]
      exact congrArg (base.components ++ ·) parts.symm
    · exact chars_tail_isInfix p base.components.length
  · intro other
    have rest : p.relativeTo? base = none := by
      rw [relativeTo?, if_neg (fun under => other (List.isPrefixOf_iff_prefix.1 under))]
    rw [display, rest]
    rfl

/-- What is displayed of a path has only characters of the path. -/
theorem mem_of_mem_display {c : Char} (h : c ∈ (p.display base).toList) : c ∈ p.chars := by
  by_cases under : base.components <+: p.components
  · exact ((isShownAs_display p base).below under).2.subset h
  · rw [(isShownAs_display p base).elsewhere under] at h
    exact h

end Path

end PageIndex
