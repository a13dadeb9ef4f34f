import PageIndex.Json.Token
import PageIndex.Proofs.Json.Layout

/-!
# Cutting strings

A string is cut off a text where it closes, and its content does not depend on what follows it,
although the escape of a unit takes four characters, which a string may not have (`cuts_quoted`).
-/

namespace PageIndex.Json

/-- What follows the opening quotation mark of a string with the given parts. -/
def closed (parts : List StringPart) (rest : List Char) : List Char :=
  parts.flatMap StringPart.text ++ '\x22' :: rest

/-- Cuts the escape of a unit. -/
private def cutUnitEscape : List Char → Option (Nat × List Char)
  | '\\' :: 'u' :: cs => Text.cutUnit cs
  | _ => none

/-- Reading on after the escape of a unit. -/
private theorem cutString_unit (cs : List Char) :
    cutString ('\\' :: 'u' :: cs) = (Text.cutUnit cs).bind fun r =>
      if Text.isHighHalf r.1 then
        (cutUnitEscape r.2).bind fun s =>
          if Text.isLowHalf s.1 then
            (cutString s.2).map fun q => (Char.ofNat (Text.joinHalves r.1 s.1) :: q.1, q.2)
          else none
      else if Text.isLowHalf r.1 then none
      else (cutString r.2).map fun q => (Char.ofNat r.1 :: q.1, q.2) := by
  rcases cs with _ | ⟨a, _ | ⟨b, _ | ⟨c, _ | ⟨d, cs⟩⟩⟩⟩
  case cons.cons.cons.cons =>
    rw [cutString, Text.cutUnit]
    cases Text.hexUnit? a b c d with
    | none => rfl
    | some unit =>
      dsimp only [Option.map_some, Option.bind_some]
      split
      · split
        · next e f g h rest =>
          rw [cutUnitEscape, Text.cutUnit]
          cases Text.hexUnit? e f g h <;> rfl
        · next other =>
          rw [cutUnitEscape.eq_def]
          split
          · next rest =>
            rw [Text.cutUnit.eq_def]
            split
            · exact (other _ _ _ _ _ rfl).elim
            · rfl
          · rfl
      · rfl
  all_goals simp [cutString, Text.cutUnit, shortEscape?]

/-- A digit of a unit is neither a quotation mark nor a reverse solidus. -/
private theorem plain_of_hexUnit? {a b c d : Char} {n : Nat} (h : Text.hexUnit? a b c d = some n) :
    ∀ e ∈ [a, b, c, d], e ≠ '\x22' ∧ e ≠ '\\' := by
  have digit {e : Char} {v : Nat} (he : Text.hexValue? e = some v) : e ≠ '\x22' ∧ e ≠ '\\' := by
    constructor <;> (rintro rfl; cases he)
  obtain ⟨_, ha, h⟩ := Option.bind_eq_some_iff.1 h
  obtain ⟨_, hb, h⟩ := Option.bind_eq_some_iff.1 h
  obtain ⟨_, hc, h⟩ := Option.bind_eq_some_iff.1 h
  obtain ⟨_, hd, -⟩ := Option.bind_eq_some_iff.1 h
  simp only [List.forall_mem_cons]
  exact ⟨digit ha, digit hb, digit hc, digit hd, fun _ h => by cases h⟩

/-- A character that is neither is a part of its own. -/
private theorem exists_plain {parts : List StringPart} {rest cs : List Char} {c : Char}
    (h : closed parts rest = c :: cs) (plain : c ≠ '\x22' ∧ c ≠ '\\') :
    ∃ tail, parts = .plain c plain :: tail ∧ cs = closed tail rest := by
  cases parts with
  | nil => exact absurd (List.cons.inj h).1.symm plain.1
  | cons part tail =>
    cases part with
    | plain d isPlain =>
      obtain ⟨rfl, rfl⟩ := List.cons.inj h
      exact ⟨tail, rfl, rfl⟩
    | escape d => exact absurd (List.cons.inj h).1.symm plain.2

/-- Whether a unit is cut off the parts of a string or off none, whatever follows the string. -/
private def CutsWithin (cut : List Char → Option (Nat × List Char)) (parts : List StringPart) :
    Prop :=
  (∃ n tail, tail.length < parts.length ∧
      ∀ rest, cut (closed parts rest) = some (n, closed tail rest)) ∨
    ∀ rest, cut (closed parts rest) = none

/-- The digits of a unit are parts of the string: no quotation mark is one of them. -/
private theorem cutsWithin_unit (parts : List StringPart) : CutsWithin Text.cutUnit parts := by
  by_cases h : ∃ rest r, Text.cutUnit (closed parts rest) = some r
  · obtain ⟨rest, r, h⟩ := h
    rw [Text.cutUnit.eq_def] at h
    split at h
    · next a b c d cs hp =>
      obtain ⟨n, hn, -⟩ := Option.map_eq_some_iff.1 h
      have plain := plain_of_hexUnit? hn
      simp only [List.forall_mem_cons] at plain
      obtain ⟨_, rfl, h₁⟩ := exists_plain hp plain.1
      obtain ⟨_, rfl, h₂⟩ := exists_plain h₁.symm plain.2.1
      obtain ⟨_, rfl, h₃⟩ := exists_plain h₂.symm plain.2.2.1
      obtain ⟨tail, rfl, -⟩ := exists_plain h₃.symm plain.2.2.2.1
      refine .inl ⟨n, tail, by simp; omega, fun rest => ?_⟩
      exact congrArg (Option.map (·, closed tail rest)) hn
    · cases h
  · refine .inr fun rest => ?_
    cases hr : Text.cutUnit (closed parts rest) with
    | none => rfl
    | some r => exact absurd ⟨rest, r, hr⟩ h

private theorem cutsWithin_unitEscape (parts : List StringPart) :
    CutsWithin cutUnitEscape parts := by
  match parts with
  | [] => exact .inr fun rest => rfl
  | .plain c isPlain :: tail =>
    refine .inr fun rest => ?_
    show cutUnitEscape (c :: closed tail rest) = none
    simp [cutUnitEscape, isPlain.2]
  | .escape c :: tail =>
    by_cases unit : c = 'u'
    · subst unit
      rcases cutsWithin_unit tail with ⟨n, tail', shorter, h⟩ | h
      · exact .inl ⟨n, tail', Nat.lt_succ_of_lt shorter, h⟩
      · exact .inr h
    · refine .inr fun rest => ?_
      show cutUnitEscape ('\\' :: c :: closed tail rest) = none
      simp [cutUnitEscape, unit]

/-- Whether a string with the given parts is cut off where it closes, whatever follows it. -/
def Cuts (parts : List StringPart) : Prop :=
  ∃ content : Option (List Char), ∀ rest,
    cutString (closed parts rest) = content.map fun cs => (cs, rest)

private theorem Cuts.refused {parts : List StringPart}
    (h : ∀ rest, cutString (closed parts rest) = none) : Cuts parts :=
  ⟨none, h⟩

/-- A string is cut when it gives a character and goes on with a string that is cut. -/
private theorem Cuts.of_map {parts tail : List StringPart} {c : Char} (cuts : Cuts tail)
    (h : ∀ rest, cutString (closed parts rest) =
      (cutString (closed tail rest)).map fun r => (c :: r.1, r.2)) : Cuts parts := by
  obtain ⟨content, hc⟩ := cuts
  refine ⟨content.map (c :: ·), fun rest => ?_⟩
  rw [h, hc, Option.map_map, Option.map_map]
  rfl

private theorem cuts_unitEscape {parts : List StringPart}
    (shorter : ∀ tail : List StringPart, tail.length < parts.length → Cuts tail) :
    Cuts (.escape 'u' :: parts) := by
  have step (rest : List Char) := cutString_unit (closed parts rest)
  rcases cutsWithin_unit parts with ⟨n, tail, less, hn⟩ | hn
  · simp only [hn, Option.bind_some] at step
    cases high : Text.isHighHalf n with
    | false =>
      simp only [high] at step
      cases low : Text.isLowHalf n with
      | true => exact .refused fun rest => (step rest).trans (by simp [low])
      | false =>
        exact .of_map (c := Char.ofNat n) (shorter tail less) fun rest =>
          (step rest).trans (by simp [low])
    | true =>
      simp only [high, if_true] at step
      rcases cutsWithin_unitEscape tail with ⟨m, tail', less', hm⟩ | hm
      · simp only [hm, Option.bind_some] at step
        cases low : Text.isLowHalf m with
        | true =>
          exact .of_map (c := Char.ofNat (Text.joinHalves n m)) (shorter tail' (less'.trans less))
            fun rest => (step rest).trans (by simp [low])
        | false => exact .refused fun rest => (step rest).trans (by simp [low])
      · exact .refused fun rest => (step rest).trans (by rw [hm]; rfl)
  · exact .refused fun rest => (step rest).trans (by rw [hn]; rfl)

/-- What stands in a string is cut off it whatever follows the string. -/
theorem cuts_quoted (parts : List StringPart) : Cuts parts := by
  -- The escape of a unit takes more parts than one, so the recursion is on their number.
  match parts with
  | [] => exact ⟨some [], fun rest => rfl⟩
  | .plain c isPlain :: tail =>
    have step (rest : List Char) : cutString (closed (.plain c isPlain :: tail) rest) =
        if c.toNat < 0x20 then none
        else (cutString (closed tail rest)).map fun r => (c :: r.1, r.2) := by
      show cutString (c :: closed tail rest) = _
      rw [cutString] <;> simp [isPlain]
    by_cases control : c.toNat < 0x20
    · exact .refused fun rest => (step rest).trans (if_pos control)
    · exact .of_map (cuts_quoted tail) fun rest => (step rest).trans (if_neg control)
  | .escape c :: tail =>
    by_cases unit : c = 'u'
    · subst unit
      exact cuts_unitEscape fun tail' shorter => cuts_quoted tail'
    · have step (rest : List Char) : cutString (closed (.escape c :: tail) rest) =
          (shortEscape? c).bind fun d =>
            (cutString (closed tail rest)).map fun r => (d :: r.1, r.2) := by
        show cutString ('\\' :: c :: closed tail rest) = _
        rw [cutString]
        · cases shortEscape? c <;> rfl
        · simp [unit]
      cases short : shortEscape? c with
      | none => exact .refused fun rest => (step rest).trans (by rw [short]; rfl)
      | some d =>
        exact .of_map (cuts_quoted tail) fun rest => (step rest).trans (by rw [short]; rfl)
termination_by parts.length
decreasing_by
  · exact Nat.lt_succ_self _
  · exact Nat.lt_succ_of_lt shorter
  · exact Nat.lt_succ_self _

end PageIndex.Json
