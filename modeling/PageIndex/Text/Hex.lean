/-!
# Hexadecimal digits

Reading and writing of hexadecimal digits, and the 16-bit units that four of them stand for:
characters of the first plane, and the halves of pairs for all others.
-/

namespace PageIndex.Text

/-- The hexadecimal digit of a number below 16, in lower case. -/
def hexDigit (n : Nat) : Char :=
  if n < 10 then Char.ofNat (n + 0x30) else Char.ofNat (n + 0x57)

/-- The value of a hexadecimal digit of either case. -/
def hexValue? (c : Char) : Option Nat :=
  if c.isDigit then some (c.toNat - 0x30)
  else if 0x61 ≤ c.toNat && c.toNat ≤ 0x66 then some (c.toNat - 0x57)
  else if 0x41 ≤ c.toNat && c.toNat ≤ 0x46 then some (c.toNat - 0x37)
  else none

/-- The value of four hexadecimal digits. -/
def hexUnit? (a b c d : Char) : Option Nat := do
  let a ← hexValue? a
  let b ← hexValue? b
  let c ← hexValue? c
  let d ← hexValue? d
  some (((a * 16 + b) * 16 + c) * 16 + d)

/-- The value of the four hexadecimal digits at the start of a text, and what follows them. -/
def cutUnit : List Char → Option (Nat × List Char)
  | a :: b :: c :: d :: rest => (hexUnit? a b c d).map (·, rest)
  | _ => none

/-- What follows the four digits is shorter than the text. -/
theorem cutUnit_shorter {cs rest : List Char} {n : Nat} (h : cutUnit cs = some (n, rest)) :
    rest.length < cs.length := by
  unfold cutUnit at h
  split at h
  · obtain ⟨u, -, hu⟩ := Option.map_eq_some_iff.1 h
    simp only [Prod.mk.injEq] at hu
    simp only [← hu.2, List.length_cons]
    omega
  · simp at h

/-- The four hexadecimal digits of a 16-bit unit. -/
def unitDigits (n : Nat) : List Char :=
  [hexDigit (n / 4096 % 16), hexDigit (n / 256 % 16), hexDigit (n / 16 % 16), hexDigit (n % 16)]

/-- Whether a unit is the first half of a pair. -/
def isHighHalf (n : Nat) : Bool :=
  0xd800 ≤ n && n < 0xdc00

/-- Whether a unit is the second half of a pair. -/
def isLowHalf (n : Nat) : Bool :=
  0xdc00 ≤ n && n < 0xe000

/-- The scalar value of two halves. -/
def joinHalves (high low : Nat) : Nat :=
  0x10000 + (high - 0xd800) * 0x400 + (low - 0xdc00)

end PageIndex.Text
