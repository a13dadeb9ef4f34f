import PageIndex.Script.Token
import PageIndex.Text.Hex
import PageIndex.Text.Ident

/-!
# Numerals

The numerals of scripts: decimal ones with a fraction and an exponent, those with a base
written in front, and those with a leading zero, which are octal if their digits allow it. Low
lines may separate digits. A numeral with a closing `n` is a whole number without bound.
-/

namespace PageIndex.Script

/-- The value of a digit of the given base. -/
def digitOf? (base : Nat) (c : Char) : Option Nat :=
  match Text.hexValue? c with
  | some d => if d < base then some d else none
  | none => none

/-- The digits that go on after a first one, with low lines between them; `found` holds the ones
before, the last one first. -/
def cutMoreDigits (base : Nat) (found : List Nat) : List Char → Option (List Nat × List Char)
  | [] => some (found.reverse, [])
  | ['_'] => none
  | '_' :: c :: cs =>
    match digitOf? base c with
    | some d => cutMoreDigits base (d :: found) cs
    | none => none
  | c :: cs =>
    match digitOf? base c with
    | some d => cutMoreDigits base (d :: found) cs
    | none => some (found.reverse, c :: cs)

/-- A run of at least one digit. -/
def cutDigits (base : Nat) : List Char → Option (List Nat × List Char)
  | [] => none
  | c :: cs =>
    match digitOf? base c with
    | some d => cutMoreDigits base [d] cs
    | none => none

/-- A run of digits that may be empty. -/
def cutFraction (cs : List Char) : Option (List Nat × List Char) :=
  if cs.head?.any Char.isDigit then cutDigits 10 cs else some ([], cs)

/-- The number that digits stand for. -/
def digitsValue (base : Nat) (digits : List Nat) : Nat :=
  digits.foldl (fun n d => n * base + d) 0

/-- The most digits of a base that are taken together before rounding. -/
def exactDigits (base : Nat) : Nat :=
  if base = 2 then 64 else if base = 8 then 21 else 16

/-- The double that the digits of a base other than ten stand for. Numerals that are too long are
rounded after every digit. -/
def radixValue (base : Nat) (digits : List Nat) : Binary64 :=
  if digits.length ≤ exactDigits base then Binary64.ofNat (digitsValue base digits)
  else digits.foldl (fun x d => x.shiftIn base d) (.finite false 0)

/-- The value of a decimal numeral. -/
def decimalValue (whole fraction : List Nat) (exponent : Int) : Binary64 :=
  Binary64.ofDecimal (digitsValue 10 (whole ++ fraction)) (exponent - (fraction.length : Int))

/-- The base that a letter after a zero stands for. -/
def radix? (c : Char) : Option Nat :=
  if c = 'b' || c = 'B' then some 2
  else if c = 'o' || c = 'O' then some 8
  else if c = 'x' || c = 'X' then some 16
  else none

/-- The exponent after its letter. -/
def cutExponent (cs : List Char) : Option (Int × List Char) :=
  let (negative, cs) :=
    match cs with
    | '-' :: rest => (true, rest)
    | '+' :: rest => (false, rest)
    | _ => (false, cs)
  (cutDigits 10 cs).map fun (digits, rest) =>
    let n : Int := (digitsValue 10 digits : Nat)
    (if negative then -n else n, rest)

/-- The exponent, if there is one. -/
def cutScale (cs : List Char) : Option (Int × List Char) :=
  match cs with
  | 'e' :: rest => cutExponent rest
  | 'E' :: rest => cutExponent rest
  | _ => some (0, cs)

/-- A numeral ends where no digit and no word starts. -/
def closed (found : Token × List Char) : Option (Token × List Char) :=
  match found.2 with
  | c :: _ => if c.isDigit || Text.isIdentStart c then none else some found
  | [] => some found

/-- What follows the point of a decimal numeral. -/
def cutAfterPoint (whole : List Nat) (cs : List Char) : Option (Token × List Char) := do
  let (fraction, cs) ← cutFraction cs
  let (exponent, cs) ← cutScale cs
  closed (.number (decimalValue whole fraction exponent), cs)

/-- A decimal numeral that starts with a digit. -/
def cutDecimal (cs : List Char) : Option (Token × List Char) := do
  let (whole, cs) ← cutDigits 10 cs
  match cs with
  | '.' :: rest => cutAfterPoint whole rest
  | 'n' :: rest => closed (.bigint, rest)
  | _ =>
    let (exponent, cs) ← cutScale cs
    closed (.number (decimalValue whole [] exponent), cs)

/-- A decimal numeral that ends with its exponent, whatever follows it. -/
def cutScaled (whole : List Nat) (cs : List Char) : Option (Token × List Char) := do
  let (exponent, cs) ← cutExponent cs
  some (.number (decimalValue whole [] exponent), cs)

/-- The digits after a base. -/
def cutRadix (base : Nat) (cs : List Char) : Option (Token × List Char) := do
  let (digits, cs) ← cutDigits base cs
  match cs with
  | 'n' :: rest => closed (.bigint, rest)
  | _ => closed (.number (radixValue base digits), cs)

/-- The digits after a leading zero. -/
def cutAfterZero (cs : List Char) : Option (Token × List Char) :=
  let run := cs.takeWhile Char.isDigit
  let rest := cs.dropWhile Char.isDigit
  let digits := run.map fun c => c.toNat - 0x30
  if digits.all (· < 8) then closed (.number (radixValue 8 digits), rest)
  else
    match rest with
    | '.' :: rest => cutAfterPoint digits rest
    | 'e' :: rest => cutScaled digits rest
    | _ => closed (.number (decimalValue digits [] 0), rest)

/-- A numeral at the start of a text. -/
def cutNumeral (cs : List Char) : Option (Token × List Char) :=
  match cs with
  | '0' :: c :: rest =>
    match radix? c with
    | some base => cutRadix base rest
    | none =>
      if c = 'e' || c = 'E' then cutScaled [0] rest
      else if c = '_' then none
      else if c.isDigit then cutAfterZero (c :: rest)
      else cutDecimal cs
  | '.' :: rest => do
    let (fraction, rest) ← cutDigits 10 rest
    let (exponent, rest) ← cutScale rest
    closed (.number (decimalValue [] fraction exponent), rest)
  | _ => cutDecimal cs

end PageIndex.Script
