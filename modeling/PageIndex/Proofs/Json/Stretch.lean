import Mathlib.Data.List.Forall2
import PageIndex.Proofs.Json.Layout

/-!
# The stretches of a text

Any text, whether it is JSON or not, is made of string literals, comments and characters outside of
both; a literal or a comment at the end may stay open. Stripping copies the literals, leaves spaces
and the ends of lines of the comments, and changes nothing else but commas (`CutInto.strip`). So
every character keeps its place (`keeps_strip`).
-/

namespace PageIndex.Json

/-- A stretch of a text. -/
inductive Stretch where
  /-- A character outside of literals and comments. -/
  | single (c : Char)
  /-- A string literal with its quotation marks. -/
  | literal (cs : List Char)
  /-- A comment with its marks, but without the end of its line. -/
  | comment (cs : List Char)

namespace Stretch

/-- The text of a stretch. -/
def text : Stretch → List Char
  | .single c => [c]
  | .literal cs => cs
  | .comment cs => cs

/-- Whether stripping may leave a text of a stretch. -/
def Leaves : Stretch → List Char → Prop
  | .single c, left => left = [c] ∨ c = ',' ∧ left = [' ']
  | .literal cs, left => left = cs
  | .comment cs, left => left = cs.map blanked

end Stretch

/-- Whether a text is cut into stretches from its start. A literal goes from a quotation mark
outside of literals and comments to the first one that is not escaped, or to the end. -/
inductive CutInto : List Char → List Stretch → Prop where
  | done : CutInto [] []
  | single {c : Char} {cs : List Char} {stretches : List Stretch} (noQuote : c ≠ '\x22')
      (noComment : c = '/' → cs.head? ≠ some '/' ∧ cs.head? ≠ some '*')
      (after : CutInto cs stretches) : CutInto (c :: cs) (.single c :: stretches)
  | literal (parts : List StringPart) {rest : List Char} {stretches : List Stretch}
      (after : CutInto rest stretches) :
      CutInto ('\x22' :: (parts.flatMap StringPart.text ++ '\x22' :: rest))
        (.literal ('\x22' :: (parts.flatMap StringPart.text ++ ['\x22'])) :: stretches)
  /-- At the end of a text a reverse solidus may have nothing to escape. -/
  | openLiteral (parts : List StringPart) {last : List Char} (h : last = [] ∨ last = ['\\']) :
      CutInto ('\x22' :: (parts.flatMap StringPart.text ++ last))
        [.literal ('\x22' :: (parts.flatMap StringPart.text ++ last))]
  | line {body rest : List Char} {stretches : List Stretch}
      (inLine : ∀ c ∈ body, isLineEnd c = false) (ends : ∀ c ∈ rest.head?, isLineEnd c = true)
      (after : CutInto rest stretches) :
      CutInto ('/' :: '/' :: (body ++ rest)) (.comment ('/' :: '/' :: body) :: stretches)
  | block {body rest : List Char} {stretches : List Stretch} (isOpen : ¬ ['*', '/'] <:+: body)
      (after : CutInto rest stretches) :
      CutInto ('/' :: '*' :: (body ++ '*' :: '/' :: rest))
        (.comment ('/' :: '*' :: (body ++ ['*', '/'])) :: stretches)
  | openBlock {body : List Char} (isOpen : ¬ ['*', '/'] <:+: body) :
      CutInto ('/' :: '*' :: body) [.comment ('/' :: '*' :: body)]

/-! ### Every text is cut -/

section Exists

/-- What follows a quotation mark goes on to the next one that is not escaped, or to the end. -/
theorem exists_stringParts : ∀ cs : List Char, ∃ parts : List StringPart,
    (∃ rest, cs = parts.flatMap StringPart.text ++ '\x22' :: rest) ∨
      ∃ last, (last = [] ∨ last = ['\\']) ∧ cs = parts.flatMap StringPart.text ++ last
  | [] => ⟨[], .inr ⟨[], .inl rfl, rfl⟩⟩
  | [c] => by
    by_cases quote : c = '\x22'
    · exact ⟨[], .inl ⟨[], by rw [quote]; rfl⟩⟩
    · by_cases solidus : c = '\\'
      · exact ⟨[], .inr ⟨['\\'], .inr rfl, by rw [solidus]; rfl⟩⟩
      · exact ⟨[.plain c ⟨quote, solidus⟩], .inr ⟨[], .inl rfl, rfl⟩⟩
  | c :: d :: cs => by
    by_cases quote : c = '\x22'
    · exact ⟨[], .inl ⟨d :: cs, by rw [quote]; rfl⟩⟩
    · by_cases solidus : c = '\\'
      · obtain ⟨parts, h⟩ := exists_stringParts cs
        subst solidus
        refine ⟨.escape d :: parts, h.imp ?_ ?_⟩
        · rintro ⟨rest, rfl⟩
          exact ⟨rest, rfl⟩
        · rintro ⟨last, hl, rfl⟩
          exact ⟨last, hl, rfl⟩
      · obtain ⟨parts, h⟩ := exists_stringParts (d :: cs)
        refine ⟨.plain c ⟨quote, solidus⟩ :: parts, h.imp ?_ ?_⟩
        · rintro ⟨rest, written⟩
          exact ⟨rest, by rw [written]; rfl⟩
        · rintro ⟨last, hl, written⟩
          exact ⟨last, hl, by rw [written]; rfl⟩

/-- A text goes on to its first star with a solidus after it, or to its end. -/
theorem exists_blockBody (cs : List Char) : ∃ body, ¬ ['*', '/'] <:+: body ∧
    ((∃ rest, cs = body ++ '*' :: '/' :: rest) ∨ cs = body) := by
  induction cs with
  | nil => exact ⟨[], by simp, .inr rfl⟩
  | cons c cs ih =>
    by_cases closes : ['*', '/'] <+: c :: cs
    · obtain ⟨rest, written⟩ := closes
      exact ⟨[], by simp, .inl ⟨rest, written.symm⟩⟩
    · obtain ⟨body, isOpen, h⟩ := ih
      have start : body <+: cs := by
        rcases h with ⟨rest, rfl⟩ | rfl
        · exact List.prefix_append _ _
        · exact List.prefix_refl _
      refine ⟨c :: body, ?_, h.imp ?_ ?_⟩
      · rw [List.infix_cons_iff, not_or]
        refine ⟨fun early => closes (early.trans ?_), isOpen⟩
        exact (List.prefix_cons_inj c).2 start
      · rintro ⟨rest, rfl⟩
        exact ⟨rest, rfl⟩
      · rintro rfl
        rfl

/-- A text goes on to the first end of a line, or to its own end. -/
theorem exists_lineBody (cs : List Char) : ∃ body rest, cs = body ++ rest ∧
    (∀ c ∈ body, isLineEnd c = false) ∧ ∀ c ∈ rest.head?, isLineEnd c = true := by
  induction cs with
  | nil => exact ⟨[], [], rfl, by simp, by simp⟩
  | cons c cs ih =>
    cases ends : isLineEnd c with
    | true => exact ⟨[], c :: cs, rfl, by simp, by simpa using ends⟩
    | false =>
      obtain ⟨body, rest, rfl, inLine, after⟩ := ih
      exact ⟨c :: body, rest, rfl, List.forall_mem_cons.2 ⟨ends, inLine⟩, after⟩

/-- Every text is cut into stretches. -/
theorem exists_cutInto (text : List Char) : ∃ stretches, CutInto text stretches := by
  induction hn : text.length using Nat.strong_induction_on generalizing text with
  | h n ih =>
    subst hn
    have later (rest : List Char) (shorter : rest.length < text.length) :
        ∃ stretches, CutInto rest stretches := ih rest.length shorter rest rfl
    match text with
    | [] => exact ⟨[], .done⟩
    | c :: cs =>
      by_cases quote : c = '\x22'
      · subst quote
        obtain ⟨parts, ⟨rest, rfl⟩ | ⟨last, hl, rfl⟩⟩ := exists_stringParts cs
        · obtain ⟨stretches, after⟩ := later rest (by simp; omega)
          exact ⟨_, .literal parts after⟩
        · exact ⟨_, .openLiteral parts hl⟩
      by_cases line : c = '/' ∧ cs.head? = some '/'
      · obtain ⟨rfl, next⟩ := line
        obtain ⟨ds, rfl⟩ := List.head?_eq_some_iff.1 next
        obtain ⟨body, rest, rfl, inLine, ends⟩ := exists_lineBody ds
        obtain ⟨stretches, after⟩ := later rest (by simp; omega)
        exact ⟨_, .line inLine ends after⟩
      by_cases block : c = '/' ∧ cs.head? = some '*'
      · obtain ⟨rfl, next⟩ := block
        obtain ⟨ds, rfl⟩ := List.head?_eq_some_iff.1 next
        obtain ⟨body, isOpen, ⟨rest, rfl⟩ | rfl⟩ := exists_blockBody ds
        · obtain ⟨stretches, after⟩ := later rest (by simp; omega)
          exact ⟨_, .block isOpen after⟩
        · exact ⟨_, .openBlock isOpen⟩
      obtain ⟨stretches, after⟩ := later cs (by simp)
      refine ⟨_, .single quote (fun solidus => ⟨fun next => ?_, fun next => ?_⟩) after⟩
      · exact line ⟨solidus, next⟩
      · exact block ⟨solidus, next⟩

end Exists

/-! ### What is left of a stretch -/

section Strip

variable {text rest body : List Char} {stretches : List Stretch}

/-- Stretches make up the text that they are cut from. -/
theorem CutInto.text_eq (h : CutInto text stretches) : stretches.flatMap Stretch.text = text := by
  induction h with
  | done => rfl
  | single _ _ _ ih => exact congrArg (_ :: ·) ih
  | literal _ _ ih => simp [Stretch.text, ih]
  | openLiteral => simp [Stretch.text]
  | line _ _ _ ih => simp [Stretch.text, ih]
  | block _ _ ih => simp [Stretch.text, ih]
  | openBlock => simp [Stretch.text]

/-- A comment that stays open is blanked up to the end of the text. -/
theorem stripFrom_openBlock (isOpen : ¬ ['*', '/'] <:+: body) :
    stripFrom .blockComment body = body.map blanked := by
  induction body with
  | nil => exact stripFrom_nil _
  | cons c body ih =>
    rw [List.infix_cons_iff, not_or] at isOpen
    rw [stripFrom, ih isOpen.2, List.map_cons]
    rintro ds rfl rfl
    exact isOpen.1 ⟨ds, rfl⟩

/-- After a comment that ends with its line the scan goes on between tokens. -/
theorem stripFrom_afterLine (ends : ∀ c ∈ rest.head?, isLineEnd c = true) :
    stripFrom .lineComment rest = stripFrom .outside rest := by
  cases rest with
  | nil => rw [stripFrom_nil, stripFrom_nil]
  | cons c cs =>
    have ending : isLineEnd c = true := ends c rfl
    have solidus : c ≠ '/' := ne_of_kind ending (by decide)
    have comma : c ≠ ',' := ne_of_kind ending (by decide)
    have quote : c ≠ '\x22' := ne_of_kind ending (by decide)
    rw [stripFrom_cons solidus, if_neg comma, if_neg quote, stripFrom, if_pos ending, blanked,
      if_pos ending]

/-- Stripping works on the stretches of a text one by one. -/
theorem CutInto.strip (h : CutInto text stretches) :
    ∃ left, strip text = left.flatten ∧ List.Forall₂ Stretch.Leaves stretches left := by
  induction h with
  | done => exact ⟨[], stripFrom_nil _, .nil⟩
  | @single c cs _ noQuote noComment _ ih =>
    obtain ⟨left, h, each⟩ := ih
    have step : Json.strip (c :: cs) =
        (if c = ',' then if closerFollows .outside cs then ' ' else ',' else c) ::
          Json.strip cs := by
      rw [Json.strip, stripFrom, if_neg noQuote]
      · split <;> rfl
      · rintro ds rfl rfl
        exact (noComment rfl).1 rfl
      · rintro ds rfl rfl
        exact (noComment rfl).2 rfl
    refine ⟨[_] :: left, by rw [step, h]; rfl, .cons ?_ each⟩
    by_cases comma : c = ','
    · subst comma
      rw [if_pos rfl]
      cases closerFollows .outside cs with
      | false => exact .inl rfl
      | true => exact .inr ⟨rfl, rfl⟩
    · rw [if_neg comma]
      exact .inl rfl
  | @literal parts rest _ _ ih =>
    obtain ⟨left, h, each⟩ := ih
    refine ⟨_ :: left, ?_, .cons rfl each⟩
    have copied : stripFrom .string ('\x22' :: rest) = '\x22' :: Json.strip rest := rfl
    rw [Json.strip, stripFrom_cons (by decide), if_neg (by decide), if_pos rfl, stripFrom_string,
      copied, h]
    simp
  | @openLiteral parts last hl =>
    refine ⟨[_], ?_, .cons rfl .nil⟩
    have copied : stripFrom .string last = last := by
      rcases hl with rfl | rfl
      · exact stripFrom_nil .string
      · rw [stripFrom, if_pos rfl, stripFrom_nil]
    rw [Json.strip, stripFrom_cons (by decide), if_neg (by decide), if_pos rfl, stripFrom_string,
      copied]
    simp
  | @line body rest _ inLine ends _ ih =>
    obtain ⟨left, h, each⟩ := ih
    refine ⟨_ :: left, ?_, .cons rfl each⟩
    rw [Json.strip, stripFrom, stripFrom_line inLine, stripFrom_afterLine ends]
    rw [Json.strip] at h
    rw [h]
    rfl
  | @block body rest _ isOpen _ ih =>
    obtain ⟨left, h, each⟩ := ih
    refine ⟨_ :: left, ?_, .cons rfl each⟩
    rw [Json.strip] at h
    rw [Json.strip, stripFrom, stripFrom_block isOpen, h]
    rfl
  | openBlock isOpen =>
    refine ⟨[_], ?_, .cons rfl .nil⟩
    rw [Json.strip, stripFrom, stripFrom_openBlock isOpen]
    simp [blanked, isLineEnd]

end Strip

/-! ### Places -/

/-- Whether a character may stand where another one was: it is the same or a space, and it ends a
line as the other does. -/
def Keeps (c d : Char) : Prop :=
  (d = c ∨ d = ' ') ∧ (d = '\n' ↔ c = '\n') ∧ (d = '\r' ↔ c = '\r')

/-- A character may stay. -/
theorem keeps_self (c : Char) : Keeps c c :=
  ⟨.inl rfl, Iff.rfl, Iff.rfl⟩

/-- Inside a comment a character keeps its place. -/
theorem keeps_blanked (c : Char) : Keeps c (blanked c) := by
  rw [blanked]
  split
  · exact keeps_self c
  · next other =>
    simp only [isLineEnd, Bool.or_eq_true, decide_eq_true_eq, not_or] at other
    exact ⟨.inr rfl, by simp [other.1], by simp [other.2]⟩

/-- The characters of a stretch keep their places. -/
theorem Stretch.Leaves.keeps {stretch : Stretch} {left : List Char} (h : stretch.Leaves left) :
    List.Forall₂ Keeps stretch.text left := by
  cases stretch with
  | single c =>
    rcases h with rfl | ⟨rfl, rfl⟩
    · exact .cons (keeps_self c) .nil
    · exact .cons ⟨.inr rfl, by decide, by decide⟩ .nil
  | literal cs =>
    obtain rfl : left = cs := h
    exact List.forall₂_same.2 fun c _ => keeps_self c
  | comment cs =>
    obtain rfl : left = cs.map blanked := h
    exact List.forall₂_map_right_iff.2 (List.forall₂_same.2 fun c _ => keeps_blanked c)

/-- Every character of a text keeps its place when the text is stripped. -/
theorem keeps_strip (text : List Char) : List.Forall₂ Keeps text (strip text) := by
  obtain ⟨stretches, cut⟩ := exists_cutInto text
  obtain ⟨left, h, each⟩ := cut.strip
  rw [h, ← cut.text_eq]
  clear h cut
  induction each with
  | nil => exact .nil
  | cons first _ ih => exact List.rel_append first.keeps ih

end PageIndex.Json
