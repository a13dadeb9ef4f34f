import PageIndex.Json.Basic

/-!
# JSON numbers

A number is read in two steps: first its parts are cut from the text, then their value is
computed. An integer that fits into 64 bits stays an integer. Every other number becomes a
double from a significand of at most 64 bits and one multiplication or division by a power of
ten, each rounded; a number beyond the finite doubles has no value.
-/

namespace PageIndex.Json

/-- The parts of a number as they are written. -/
structure NumberParts where
  negative : Bool
  whole : List Char
  /-- The digits after the point, if there is one. -/
  fraction : Option (List Char)
  /-- The sign and the digits after the exponent mark, if there is one. -/
  exponent : Option (Bool × List Char)
deriving Repr

/-- The value of a decimal digit. -/
def digitValue (c : Char) : Nat :=
  c.toNat - 0x30

/-- The value of a run of decimal digits. -/
def digitsValue (ds : List Char) : Nat :=
  ds.foldl (fun n d => n * 10 + digitValue d) 0

/-- Cuts a run of at least one digit. -/
def cutDigits (cs : List Char) : Option (List Char × List Char) :=
  if (cs.takeWhile Char.isDigit).isEmpty then none
  else some (cs.takeWhile Char.isDigit, cs.dropWhile Char.isDigit)

/-- Cuts the whole part: a zero alone, or digits that start with another one. -/
def cutWhole : List Char → Option (List Char × List Char)
  | '0' :: cs => some (['0'], cs)
  | cs => cutDigits cs

/-- Cuts a fraction, which needs at least one digit. -/
def cutFraction : List Char → Option (Option (List Char) × List Char)
  | '.' :: cs => (cutDigits cs).map fun r => (some r.1, r.2)
  | cs => some (none, cs)

/-- Cuts the sign of an exponent, and whether it is a minus. -/
def cutSign : List Char → Bool × List Char
  | '-' :: cs => (true, cs)
  | '+' :: cs => (false, cs)
  | cs => (false, cs)

/-- Cuts an exponent, which needs at least one digit. -/
def cutExponent : List Char → Option (Option (Bool × List Char) × List Char)
  | [] => some (none, [])
  | c :: cs =>
    if c = 'e' || c = 'E' then
      (cutDigits (cutSign cs).2).map fun r => (some ((cutSign cs).1, r.1), r.2)
    else some (none, c :: cs)

/-- Cuts a number without its sign. -/
def cutUnsigned (negative : Bool) (cs : List Char) : Option (NumberParts × List Char) := do
  let (whole, cs) ← cutWhole cs
  let (fraction, cs) ← cutFraction cs
  let (exponent, cs) ← cutExponent cs
  some (⟨negative, whole, fraction, exponent⟩, cs)

/-- Cuts a number from the start of a text. -/
def cutNumber : List Char → Option (NumberParts × List Char)
  | '-' :: cs => cutUnsigned true cs
  | cs => cutUnsigned false cs

/-- What follows a run of digits is shorter than the text. -/
theorem cutDigits_shorter {cs digits rest : List Char}
    (h : cutDigits cs = some (digits, rest)) : rest.length < cs.length := by
  unfold cutDigits at h
  split at h
  next => cases h
  next hne =>
    cases h
    have hpos := List.length_pos_iff.2 (mt List.isEmpty_iff.2 hne)
    have hall :=
      congrArg List.length (List.takeWhile_append_dropWhile (p := Char.isDigit) (l := cs))
    rw [List.length_append] at hall
    omega

/-- What follows a whole part is shorter than the text. -/
theorem cutWhole_shorter {cs whole rest : List Char} (h : cutWhole cs = some (whole, rest)) :
    rest.length < cs.length := by
  unfold cutWhole at h
  split at h
  next => cases h; exact Nat.lt_succ_self _
  next => exact cutDigits_shorter h

/-- What follows a fraction is not longer than the text. -/
theorem cutFraction_length_le {cs rest : List Char} {found : Option (List Char)}
    (h : cutFraction cs = some (found, rest)) : rest.length ≤ cs.length := by
  unfold cutFraction at h
  split at h
  next =>
    obtain ⟨r, hr, he⟩ := Option.map_eq_some_iff.1 h
    cases he
    exact Nat.le_succ_of_le (Nat.le_of_lt (cutDigits_shorter hr))
  next => cases h; exact Nat.le_refl _

/-- What follows a sign is not longer than the text. -/
theorem cutSign_length_le (cs : List Char) : (cutSign cs).2.length ≤ cs.length := by
  unfold cutSign
  split
  next => exact Nat.le_succ _
  next => exact Nat.le_succ _
  next => exact Nat.le_refl _

/-- What follows an exponent is not longer than the text. -/
theorem cutExponent_length_le {cs rest : List Char} {found : Option (Bool × List Char)}
    (h : cutExponent cs = some (found, rest)) : rest.length ≤ cs.length := by
  unfold cutExponent at h
  split at h
  next => cases h; exact Nat.le_refl _
  next c tail =>
    split at h
    next =>
      obtain ⟨r, hr, he⟩ := Option.map_eq_some_iff.1 h
      cases he
      have hsign := cutSign_length_le tail
      have hdigits := cutDigits_shorter hr
      rw [List.length_cons]
      omega
    next => cases h; exact Nat.le_refl _

/-- What follows a number without its sign is shorter than the text. -/
theorem cutUnsigned_shorter {negative : Bool} {cs rest : List Char} {parts : NumberParts}
    (h : cutUnsigned negative cs = some (parts, rest)) : rest.length < cs.length := by
  obtain ⟨⟨whole, afterWhole⟩, hw, h⟩ := Option.bind_eq_some_iff.1 h
  obtain ⟨⟨fraction, afterFraction⟩, hf, h⟩ := Option.bind_eq_some_iff.1 h
  obtain ⟨⟨exponent, afterExponent⟩, he, h⟩ := Option.bind_eq_some_iff.1 h
  cases h
  exact Nat.lt_of_le_of_lt (cutExponent_length_le he)
    (Nat.lt_of_le_of_lt (cutFraction_length_le hf) (cutWhole_shorter hw))

/-- What follows a number is shorter than the text. -/
theorem cutNumber_shorter {cs rest : List Char} {parts : NumberParts}
    (h : cutNumber cs = some (parts, rest)) : rest.length < cs.length := by
  unfold cutNumber at h
  split at h
  next => exact Nat.lt_succ_of_lt (cutUnsigned_shorter h)
  next => exact cutUnsigned_shorter h

/-- Takes digits into a significand as long as it fits into 64 bits. The second part is what is
left of the digits. -/
def takeDigits : (significand : Nat) → List Char → Nat × List Char
  | n, [] => (n, [])
  | n, d :: ds =>
    let next := n * 10 + digitValue d
    if next < Nat.pow 2 64 then takeDigits next ds else (n, d :: ds)

/-- The double for `significand * 10 ^ exponent`, by one rounded operation with a power of ten
that is itself a double, or by two of them below `10 ^ -308`. -/
def scaledDouble (significand : Nat) (exponent : Int) : Option Binary64 :=
  let power (n : Nat) := Binary64.ofDecimal 1 n
  let x := Binary64.ofNat significand
  if significand = 0 then some x
  else if 308 < exponent then none
  else if 0 ≤ exponent then
    let y := x.mul (power exponent.toNat)
    if y.isFinite then some y else none
  else if -308 ≤ exponent then some (x.div (power exponent.natAbs))
  else if -616 ≤ exponent then some ((x.div (power 308)).div (power (exponent.natAbs - 308)))
  else some (.finite false 0)

/-- The value of a number that is written as a double or does not fit into 64 bits. -/
def NumberParts.double? (p : NumberParts) : Option Binary64 :=
  let (n, wholeLeft) := takeDigits 0 p.whole
  let fraction := p.fraction.getD []
  let (significand, fractionLeft) := takeDigits n fraction
  let shift : Int := wholeLeft.length - (fraction.length - fractionLeft.length : Nat)
  let exponent : Int :=
    match p.exponent with
    | none => 0
    | some (true, ds) => -(digitsValue ds : Int)
    | some (false, ds) => digitsValue ds
  (scaledDouble significand (shift + exponent)).map fun x => if p.negative then x.neg else x

/-- The value of a number, if it has one. -/
def NumberParts.value? (p : NumberParts) : Option Json :=
  let n := digitsValue p.whole
  match p.fraction, p.exponent with
  | none, none =>
    if p.negative then
      if 0 < n ∧ n ≤ Nat.pow 2 63 then some (.int (-(n : Int))) else p.double?.map .double
    else if n < Nat.pow 2 64 then some (.int n) else p.double?.map .double
  | _, _ => p.double?.map .double

end PageIndex.Json
