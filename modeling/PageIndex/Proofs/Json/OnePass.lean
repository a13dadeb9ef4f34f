import Mathlib.Logic.Relation
import PageIndex.Proofs.Json.Stretch

/-!
# Stripping in one pass

Comments and trailing commas are taken out of a text in one pass that writes while it reads and
looks no further ahead than the next character. A comma is written down, and the byte offset at
which it stands is kept as long as only blanks and comments follow; a closing mark then puts a
space in its place. What the text comes to in the end is the same at every step
(`Pass.Sound.advances`), so the pass writes what stripping leaves, and the byte it replaces is
always a comma. The main statement is `stripComments_in_place`.
-/

namespace PageIndex.Json

/-! ### Bytes of a text -/

/-- The number of bytes of a text. -/
def byteLength : List Char → Nat
  | [] => 0
  | c :: cs => c.utf8Size + byteLength cs

/-- The text with a space in place of the byte at an offset, if that byte is a character of it. -/
def blankByte? (offset : Nat) : List Char → Option (List Char)
  | [] => none
  | c :: cs =>
    if offset = 0 then if c.utf8Size = 1 then some (' ' :: cs) else none
    else if c.utf8Size ≤ offset then (blankByte? (offset - c.utf8Size) cs).map (c :: ·)
    else none

/-- The byte after the beginning of a text is replaced when it is a character. -/
theorem blankByte?_append_cons {c : Char} (single : c.utf8Size = 1) (before after : List Char) :
    blankByte? (byteLength before) (before ++ c :: after) = some (before ++ ' ' :: after) := by
  induction before with
  | nil => rw [List.nil_append, blankByte?, byteLength, if_pos rfl, if_pos single, List.nil_append]
  | cons d before ih =>
    have positive : 0 < d.utf8Size := d.utf8Size_pos
    rw [List.cons_append, blankByte?, byteLength, if_neg (by omega), if_pos (by omega),
      Nat.add_sub_cancel_left, ih]
    rfl

/-! ### The pass -/

/-- A pass over a text between two steps. -/
structure Pass where
  /-- What is still to be read. -/
  rest : List Char
  scan : Scan
  /-- What has been written. -/
  out : List Char
  /-- The byte offset of a comma in the output that only blanks and comments have followed. -/
  pending : Option Nat

namespace Pass

/-- The start of a pass over a text. -/
def start (text : List Char) : Pass :=
  ⟨text, .outside, [], none⟩

/-- The pass after some characters are written, with a rest to be read. -/
def emit (p : Pass) (written : List Char) (scan : Scan) (rest : List Char) : Pass :=
  ⟨rest, scan, p.out ++ written, p.pending⟩

/-- The pass without a comma to come back to. -/
def forget (p : Pass) : Pass :=
  { p with pending := none }

/-- A step at a character outside of literals and comments. It fails if a comma should be replaced
and the byte at its offset is no character. -/
def readOutside? (p : Pass) (c : Char) (cs : List Char) : Option Pass :=
  if c = '\x22' then some (p.emit [c] .string cs).forget
  else if c = ',' then some { p.emit [c] .outside cs with pending := some (byteLength p.out) }
  else if isCloser c then
    match p.pending with
    | none => some (p.emit [c] .outside cs)
    | some offset => (blankByte? offset p.out).map fun out => ⟨cs, .outside, out ++ [c], none⟩
  else if Text.isBlank c then some (p.emit [c] .outside cs)
  else some (p.emit [c] .outside cs).forget

/-- One step of the pass. -/
def step? (p : Pass) : Option Pass :=
  match p.scan, p.rest with
  | _, [] => some p
  | .outside, '/' :: '/' :: cs => some (p.emit [' ', ' '] .lineComment cs)
  | .outside, '/' :: '*' :: cs => some (p.emit [' ', ' '] .blockComment cs)
  | .outside, c :: cs => p.readOutside? c cs
  | .string, c :: cs =>
    some (p.emit [c] (if c = '\\' then .escaped else if c = '\x22' then .outside else .string) cs)
  | .escaped, c :: cs => some (p.emit [c] .string cs)
  | .lineComment, c :: cs =>
    -- The end of the line is no part of the comment.
    if isLineEnd c then some (p.emit [] .outside (c :: cs)) else some (p.emit [' '] .lineComment cs)
  | .blockComment, '*' :: '/' :: cs => some (p.emit [' ', ' '] .outside cs)
  | .blockComment, c :: cs => some (p.emit [blanked c] .blockComment cs)

/-- Whether a pass over a text comes to a state. -/
def Reached (text : List Char) : Pass → Prop :=
  Relation.ReflTransGen (fun p q => p.rest ≠ [] ∧ p.step? = some q) (start text)

/-! ### What a step keeps -/

/-- Whether the offset that a pass keeps is that of a comma in its output, which it keeps outside of
literals only. -/
structure Sound (p : Pass) : Prop where
  comma : ∀ offset, p.pending = some offset →
    ∃ before after, p.out = before ++ ',' :: after ∧ byteLength before = offset
  noLiteral : p.pending ≠ none → p.scan ≠ .string ∧ p.scan ≠ .escaped

/-- The output with a space in place of the comma that a closing mark will replace. -/
def settled (p : Pass) : List Char :=
  match p.pending with
  | none => p.out
  | some offset =>
    if closerFollows p.scan p.rest then (blankByte? offset p.out).getD p.out else p.out

/-- The output at the end of the pass. -/
def final (p : Pass) : List Char :=
  p.settled ++ stripFrom p.scan p.rest

/-- How far a pass is from its end. -/
def size (p : Pass) : Nat :=
  2 * p.rest.length + if p.scan = .lineComment then 1 else 0

/-- Whether a state of a pass is sound, nearer to the end than another one and comes to the same
output. -/
structure Advances (p q : Pass) : Prop where
  sound : q.Sound
  final_eq : q.final = p.final
  size_lt : q.size < p.size

variable {p q : Pass} {written rest : List Char} {scan : Scan}

/-- Without a comma to come back to, a pass is sound. -/
theorem sound_of_none (h : p.pending = none) : p.Sound := by
  constructor
  · intro offset pending
    cases h.symm.trans pending
  · intro pending
    exact absurd h pending

/-- Without a comma to come back to, the output is settled. -/
theorem settled_of_none (h : p.pending = none) : p.settled = p.out := by
  rw [settled, h]

/-- Where no closing mark follows, the output is settled. -/
theorem settled_of_no_closer (h : closerFollows p.scan p.rest = false) : p.settled = p.out := by
  rw [settled]
  split
  · rfl
  · rw [h, if_neg Bool.false_ne_true]

/-- What gives way is the comma, if a closing mark follows. -/
theorem settled_of_comma {before after : List Char} (out : p.out = before ++ ',' :: after)
    (pending : p.pending = some (byteLength before)) :
    p.settled =
      before ++ (if closerFollows p.scan p.rest then ' ' else ',') :: after := by
  have replaced := blankByte?_append_cons (c := ',') (by decide) before after
  rw [settled, pending, out]
  dsimp only
  split
  · rw [replaced, Option.getD_some]
  · rfl

/-- A step that writes what is left of what it reads and does not touch a comma advances the pass,
if looking ahead for a closing mark comes to the same. -/
theorem Sound.advances_emit (h : p.Sound)
    (left : stripFrom p.scan p.rest = written ++ stripFrom scan rest)
    (ahead : p.pending ≠ none → closerFollows p.scan p.rest = closerFollows scan rest ∧
      scan ≠ .string ∧ scan ≠ .escaped)
    (size : (p.emit written scan rest).size < p.size) : p.Advances (p.emit written scan rest) := by
  have settled : (p.emit written scan rest).settled = p.settled ++ written := by
    cases pending : p.pending with
    | none => rw [settled_of_none pending, settled_of_none (p := p.emit _ _ _) pending, emit]
    | some offset =>
      obtain ⟨before, after, out, rfl⟩ := h.comma offset pending
      have more : (p.emit written scan rest).out = before ++ ',' :: (after ++ written) := by
        simp [emit, out]
      rw [settled_of_comma out pending, settled_of_comma more pending,
        (ahead (by simp [pending])).1, List.append_assoc, List.cons_append]
      rfl
  refine ⟨⟨?_, fun pending => (ahead pending).2⟩, ?_, size⟩
  · intro offset pending
    obtain ⟨before, after, out, rfl⟩ := h.comma offset pending
    exact ⟨before, after ++ written, by simp [emit, out], rfl⟩
  · rw [final, final, settled, left, List.append_assoc]
    rfl

/-- A step before which no closing mark follows may forget a comma. -/
theorem advances_forget (left : stripFrom p.scan p.rest = written ++ stripFrom scan rest)
    (ahead : closerFollows p.scan p.rest = false)
    (size : (p.emit written scan rest).size < p.size) :
    p.Advances (p.emit written scan rest).forget := by
  refine ⟨sound_of_none rfl, ?_, size⟩
  rw [final, final, settled_of_no_closer ahead, left, ← List.append_assoc]
  rfl

/-- A pass is nearer to its end with less to be read. -/
theorem size_emit_lt (h : rest.length < p.rest.length) :
    (p.emit written scan rest).size < p.size := by
  have new : (p.emit written scan rest).size ≤ 2 * rest.length + 1 := by
    change 2 * rest.length + (if scan = .lineComment then 1 else 0) ≤ _
    split <;> omega
  have old : 2 * p.rest.length ≤ p.size := Nat.le_add_right _ _
  omega

/-- Outside of literals and comments a step succeeds and advances the pass. -/
theorem Sound.advances_readOutside (h : p.Sound) {c : Char} {cs : List Char}
    (next : p.rest = c :: cs)
    (left : stripFrom p.scan p.rest =
      if c = ',' then (if closerFollows .outside cs then ' ' else ',') :: stripFrom .outside cs
      else c :: stripFrom (if c = '\x22' then .string else .outside) cs)
    (ahead : closerFollows p.scan p.rest =
      (isCloser c || (Text.isBlank c && closerFollows .outside cs))) :
    ∃ q, p.readOutside? c cs = some q ∧ p.Advances q := by
  have size (written : List Char) (scan : Scan) : (p.emit written scan cs).size < p.size :=
    size_emit_lt (by simp [next])
  fun_cases readOutside? p c cs
  case case1 quote =>
    subst quote
    exact ⟨_, rfl, advances_forget left ahead (size _ _)⟩
  case case2 _ comma =>
    subst comma
    rw [if_pos rfl] at left
    refine ⟨_, rfl, ⟨fun offset pending => ?_, fun _ => by simp [emit]⟩, ?_,
      size [','] .outside⟩
    · cases pending
      exact ⟨p.out, [], rfl, rfl⟩
    · rw [final, final, settled_of_no_closer ahead, left,
        @settled_of_comma _ p.out [] rfl rfl, List.append_assoc]
      rfl
  case case3 quote comma closer none =>
    rw [if_neg comma, if_neg quote] at left
    exact ⟨_, rfl, h.advances_emit left (fun pending => absurd none pending) (size _ _)⟩
  case case4 quote comma closer offset pending =>
    rw [if_neg comma, if_neg quote] at left
    rw [closer, Bool.true_or] at ahead
    obtain ⟨before, after, out, rfl⟩ := h.comma offset pending
    rw [out, blankByte?_append_cons (by decide)]
    refine ⟨_, rfl, sound_of_none rfl, ?_, size [c] .outside⟩
    rw [final, final, settled_of_comma out pending, ahead, if_pos rfl, left, settled_of_none rfl]
    simp
  case case5 quote comma closer blank =>
    rw [if_neg comma, if_neg quote] at left
    rw [Bool.eq_false_iff.2 closer, blank, Bool.false_or, Bool.true_and] at ahead
    exact ⟨_, rfl, h.advances_emit left (fun _ => ⟨ahead, by decide, by decide⟩) (size _ _)⟩
  case case6 quote comma closer blank =>
    rw [if_neg comma, if_neg quote] at left
    rw [Bool.eq_false_iff.2 closer, Bool.eq_false_iff.2 blank] at ahead
    exact ⟨_, rfl, advances_forget left ahead (size _ _)⟩

/-- Looking ahead from the end of a line is looking ahead between tokens. -/
theorem closerFollows_lineEnd {c : Char} (cs : List Char) (ending : isLineEnd c = true) :
    closerFollows .lineComment (c :: cs) = closerFollows .outside (c :: cs) := by
  have solidus : c ≠ '/' := ne_of_kind ending (by decide)
  have blank : Text.isBlank c = true := by
    simp only [isLineEnd, Bool.or_eq_true, decide_eq_true_eq] at ending
    rcases ending with rfl | rfl <;> decide
  rw [closerFollows_cons solidus, isCloser_of_isBlank blank, blank, closerFollows, if_pos ending,
    Bool.false_or, Bool.true_and]

/-- A step succeeds and advances the pass as long as something is left to be read. -/
theorem Sound.advances (h : p.Sound) (more : p.rest ≠ []) :
    ∃ q, p.step? = some q ∧ p.Advances q := by
  have inLiteral (literal : p.scan = .string ∨ p.scan = .escaped) : p.pending = none := by
    by_contra pending
    obtain ⟨string, escaped⟩ := h.noLiteral pending
    exact literal.elim string escaped
  fun_cases Pass.step? p
  case case1 done => exact absurd done more
  case case2 cs next outside =>
    refine ⟨_, rfl, h.advances_emit ?_ (fun _ => ⟨?_, by decide, by decide⟩) ?_⟩
    · rw [outside, next, stripFrom]
      rfl
    · rw [outside, next, closerFollows]
    · exact size_emit_lt (next ▸ Nat.lt_add_of_pos_right Nat.zero_lt_two)
  case case3 cs next outside =>
    refine ⟨_, rfl, h.advances_emit ?_ (fun _ => ⟨?_, by decide, by decide⟩) ?_⟩
    · rw [outside, next, stripFrom]
      rfl
    · rw [outside, next, closerFollows]
    · exact size_emit_lt (next ▸ Nat.lt_add_of_pos_right Nat.zero_lt_two)
  case case4 c cs line block next outside =>
    refine h.advances_readOutside next ?_ ?_
    · rw [outside, next, stripFrom]
      · exact line
      · exact block
    · rw [outside, next, closerFollows]
      · exact line
      · exact block
  case case5 c cs next string =>
    have noPending := inLiteral (.inl string)
    refine ⟨_, rfl, h.advances_emit ?_ (fun pending => absurd noPending pending) ?_⟩
    · rw [string, next, stripFrom]
      rfl
    · exact size_emit_lt (by simp [next])
  case case6 c cs next escaped =>
    have noPending := inLiteral (.inr escaped)
    refine ⟨_, rfl, h.advances_emit ?_ (fun pending => absurd noPending pending) ?_⟩
    · rw [escaped, next, stripFrom]
      rfl
    · exact size_emit_lt (by simp [next])
  case case7 c cs next line ending =>
    refine ⟨_, rfl, h.advances_emit ?_ (fun _ => ⟨?_, by decide, by decide⟩) ?_⟩
    · rw [line, next, List.nil_append]
      exact stripFrom_afterLine fun d hd => by cases hd; exact ending
    · rw [line, next, closerFollows_lineEnd cs ending]
    · simp [size, emit, next, line]
  case case8 c cs next line inLine =>
    refine ⟨_, rfl, h.advances_emit ?_ (fun _ => ⟨?_, by decide, by decide⟩) ?_⟩
    · rw [line, next, stripFrom, if_neg inLine, blanked, if_neg inLine]
      rfl
    · rw [line, next, closerFollows, if_neg inLine]
    · exact size_emit_lt (by simp [next])
  case case9 cs next block =>
    refine ⟨_, rfl, h.advances_emit ?_ (fun _ => ⟨?_, by decide, by decide⟩) ?_⟩
    · rw [block, next, stripFrom]
      rfl
    · rw [block, next, closerFollows]
    · exact size_emit_lt (next ▸ Nat.lt_add_of_pos_right Nat.zero_lt_two)
  case case10 c cs inside next block =>
    refine ⟨_, rfl, h.advances_emit ?_ (fun _ => ⟨?_, by decide, by decide⟩) ?_⟩
    · rw [block, next, stripFrom]
      · rfl
      · exact inside
    · rw [block, next, closerFollows]
      exact inside
    · exact size_emit_lt (by simp [next])

/-! ### Whole passes -/

/-- Every state of a pass over a text is sound and comes to what stripping leaves of the text. -/
theorem Reached.sound_and_final {text : List Char} (h : Reached text p) :
    p.Sound ∧ p.final = strip text := by
  induction h with
  | refl => exact ⟨sound_of_none rfl, rfl⟩
  | tail _ step ih =>
    obtain ⟨sound, final⟩ := ih
    obtain ⟨q, found, advances⟩ := sound.advances step.1
    cases step.2.symm.trans found
    exact ⟨advances.sound, advances.final_eq.trans final⟩

/-- From every state of a pass its end is reached. -/
theorem Reached.exists_end {text : List Char} (h : Reached text p) :
    ∃ q, Reached text q ∧ q.rest = [] := by
  induction hn : p.size using Nat.strong_induction_on generalizing p with
  | h n ih =>
    subst hn
    by_cases done : p.rest = []
    · exact ⟨p, h, done⟩
    · obtain ⟨q, found, advances⟩ := h.sound_and_final.1.advances done
      exact ih q.size advances.size_lt (h.tail ⟨done, found⟩) rfl

/-- At its end a pass has written what stripping leaves. -/
theorem Reached.out_eq {text : List Char} (h : Reached text p) (done : p.rest = []) :
    p.out = strip text := by
  have settled : p.settled = p.out := settled_of_no_closer (by rw [done, closerFollows_nil])
  rw [← h.sound_and_final.2, final, settled, done, stripFrom_nil, List.append_nil]

end Pass

/-- Stripping keeps the places of a text, whatever the text is. It leaves as many characters as
there were, each of them the one at its place or a space, with the ends of lines where they were.
Every text is cut into literals, comments and single characters; what is left of it is what is left
of these one by one, and that is all of a literal, and all of a single character unless it is a
comma. One pass that keeps the byte offset of the last comma writes the same: at every step the
offset is that of a comma in the output, which is one byte, so that replacing it never fails. -/
theorem stripComments_in_place (text : String) :
    (stripComments text).toList.length = text.toList.length ∧
    (∀ (i : Nat) (c d : Char), text.toList[i]? = some c → (stripComments text).toList[i]? = some d →
      (d = c ∨ d = ' ') ∧ (d = '\n' ↔ c = '\n') ∧ (d = '\r' ↔ c = '\r')) ∧
    (∃ stretches, CutInto text.toList stretches) ∧
    (∀ stretches, CutInto text.toList stretches →
      stretches.flatMap Stretch.text = text.toList ∧
      ∃ left, (stripComments text).toList = left.flatten ∧
        List.Forall₂ Stretch.Leaves stretches left) ∧
    (∃ p, Pass.Reached text.toList p ∧ p.rest = []) ∧
    ∀ p, Pass.Reached text.toList p →
      (∀ offset, p.pending = some offset → ∃ before after, p.out = before ++ ',' :: after ∧
        byteLength before = offset ∧ ','.utf8Size = 1) ∧
      (p.rest ≠ [] → ∃ q, p.step? = some q) ∧
      (p.rest = [] → p.out = (stripComments text).toList) := by
  have stripped : (stripComments text).toList = strip text.toList := String.toList_ofList
  have places := keeps_strip text.toList
  rw [stripped]
  refine ⟨places.length_eq.symm, ?_, exists_cutInto _, fun _ cut => ⟨cut.text_eq, cut.strip⟩,
    Pass.Reached.exists_end .refl, fun p reached => ?_⟩
  · intro i c d hc hd
    obtain ⟨hi, rfl⟩ := List.getElem?_eq_some_iff.1 hc
    obtain ⟨hj, rfl⟩ := List.getElem?_eq_some_iff.1 hd
    exact places.get hi hj
  · have sound := reached.sound_and_final.1
    refine ⟨fun offset pending => ?_, fun more => ?_, reached.out_eq⟩
    · obtain ⟨before, after, out, length⟩ := sound.comma offset pending
      exact ⟨before, after, out, length, by decide⟩
    · obtain ⟨q, found, -⟩ := sound.advances more
      exact ⟨q, found⟩

end PageIndex.Json
