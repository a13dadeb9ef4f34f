import PageIndex.Text.Hex

/-!
# Numbered escapes

The escapes that name a character by its number. Each reader returns the number and the
characters after it, which are fewer than those it was given.
-/

namespace PageIndex.Script

/-- The greatest number of a character. -/
def lastCodePoint : Nat :=
  0x10ffff

/-- Whether a number is that of half a pair. -/
def isHalf (n : Nat) : Bool :=
  Text.isHighHalf n || Text.isLowHalf n

/-- The number that hexadecimal digits up to a closing brace stand for. `sofar` is the number of
the digits before, if there are any. -/
def cutBraced (sofar : Option Nat) : List Char → Option (Nat × List Char)
  | [] => none
  | c :: cs =>
    match Text.hexValue? c with
    | some d =>
      let n := sofar.getD 0 * 16 + d
      if n ≤ lastCodePoint then cutBraced (some n) cs else none
    | none => if c = '\x7d' then sofar.map (·, cs) else none

theorem cutBraced_shorter {sofar : Option Nat} {cs rest : List Char} {n : Nat}
    (h : cutBraced sofar cs = some (n, rest)) : rest.length < cs.length := by
  induction cs generalizing sofar with
  | nil => simp [cutBraced] at h
  | cons c cs ih =>
    simp only [cutBraced] at h
    split at h
    · split at h
      · have := ih h
        simp only [List.length_cons]
        omega
      · simp at h
    · split at h
      · cases sofar with
        | none => simp at h
        | some m =>
          simp only [Option.map_some, Option.some.injEq, Prod.mk.injEq] at h
          simp [← h.2]
      · simp at h

/-- The number after `\u`, digits in braces or four digits. -/
def cutNumbered : List Char → Option (Nat × List Char)
  | '\x7b' :: cs => cutBraced none cs
  | cs => Text.cutUnit cs

theorem cutNumbered_shorter {cs rest : List Char} {n : Nat}
    (h : cutNumbered cs = some (n, rest)) : rest.length < cs.length := by
  unfold cutNumbered at h
  split at h
  · have := cutBraced_shorter h
    simp only [List.length_cons]
    omega
  · exact Text.cutUnit_shorter h

end PageIndex.Script
