import PageIndex.Script.Escape
import PageIndex.Script.Gap

/-!
# Strings and templates

A string is cut out of the text as it is written, and then its escapes are read. The result is
a list of numbers of characters, in which a half of a pair may stand alone. A text with such
halves is written with a replacement character and four digits for each half, and in it a
replacement character is written the same way.
-/

namespace PageIndex.Script

/-- What is written in a string up to the closing mark, and what follows. A line end is only
allowed after a backslash. -/
def cutString (quote : Char) (found : List Char) : List Char → Option (List Char × List Char)
  | [] => none
  | '\\' :: '\r' :: '\n' :: cs => cutString quote ('\n' :: '\\' :: found) cs
  | '\\' :: c :: cs => cutString quote (c :: '\\' :: found) cs
  | c :: cs =>
    if c = quote then some (found.reverse, cs)
    else if c = '\n' || c = '\r' then none
    else cutString quote (c :: found) cs

/-- What is written in a template up to its end or to the next expression in it, whether there is
one, and what follows. Every line end is written as a line feed. -/
def cutTemplate (found : List Char) : List Char → Option (List Char × Bool × List Char)
  | [] => none
  | '\x60' :: cs => some (found.reverse, false, cs)
  | '$' :: '\x7b' :: cs => some (found.reverse, true, cs)
  | '\\' :: '\r' :: '\n' :: cs => cutTemplate ('\n' :: '\\' :: found) cs
  | '\\' :: '\r' :: cs => cutTemplate ('\n' :: '\\' :: found) cs
  | '\\' :: c :: cs => cutTemplate (c :: '\\' :: found) cs
  | '\r' :: '\n' :: cs => cutTemplate ('\n' :: found) cs
  | '\r' :: cs => cutTemplate ('\n' :: found) cs
  | c :: cs => cutTemplate (c :: found) cs

/-- The character of a short escape, in most cases the escaped character itself. -/
def shortEscape (c : Char) : Nat :=
  if c = 'b' then 0x08
  else if c = 't' then 0x09
  else if c = 'n' then 0x0a
  else if c = 'v' then 0x0b
  else if c = 'f' then 0x0c
  else if c = 'r' then 0x0d
  else c.toNat

/-- Whether a character is an octal digit. -/
def isOctalDigit (c : Char) : Bool :=
  '0' ≤ c && c ≤ '7'

/-- The number that octal digits stand for. -/
def octalValue (digits : List Char) : Nat :=
  digits.foldl (fun n c => n * 8 + (c.toNat - 0x30)) 0

/-- The octal digits of an escape: three that stand for less than 256, or two. -/
def octalRun (cs : List Char) : List Char :=
  (cs.take (if cs.head?.any (· ≤ '3') then 3 else 2)).takeWhile isOctalDigit

/-- The number after `\u`; two escapes for the halves of a pair are one character. -/
def cutPair (cs : List Char) : Option (Nat × List Char) :=
  match cs with
  | '\x7b' :: _ => cutNumbered cs
  | _ =>
    match Text.cutUnit cs with
    | some (high, '\\' :: 'u' :: more) =>
      if Text.isHighHalf high then
        match Text.cutUnit more with
        | some (low, rest) =>
          if Text.isLowHalf low then some (Text.joinHalves high low, rest)
          else some (high, '\\' :: 'u' :: more)
        | none => none
      else some (high, '\\' :: 'u' :: more)
    | found => found

theorem cutPair_shorter {cs rest : List Char} {n : Nat} (h : cutPair cs = some (n, rest)) :
    rest.length < cs.length := by
  unfold cutPair at h
  split at h
  · exact cutNumbered_shorter h
  · split at h
    · rename_i high more hu
      have first := Text.cutUnit_shorter hu
      simp only [List.length_cons] at first
      split at h
      · split at h
        · rename_i low after hl
          have second := Text.cutUnit_shorter hl
          split at h <;> simp only [Option.some.injEq, Prod.mk.injEq] at h <;> obtain ⟨-, rfl⟩ := h
          · omega
          · simp only [List.length_cons]; omega
        · simp at h
      · simp only [Option.some.injEq, Prod.mk.injEq] at h
        obtain ⟨-, rfl⟩ := h
        simp only [List.length_cons]; omega
    · exact Text.cutUnit_shorter h

/-- The characters of a string or a template with its escapes read, the last one first in
`found`. Octal escapes are wrong in templates; a digit alone that is not octal stands for
itself in strings. -/
def cook (inTemplate : Bool) (found : List Nat) (cs : List Char) : Option (List Nat) :=
  match cs with
  | [] => some found.reverse
  | '\\' :: 'x' :: rest =>
    match rest with
    | a :: b :: rest =>
      match Text.hexValue? a, Text.hexValue? b with
      | some a, some b => cook inTemplate ((a * 16 + b) :: found) rest
      | _, _ => none
    | _ => none
  | '\\' :: 'u' :: rest =>
    match h : cutPair rest with
    | some (n, after) =>
      have := cutPair_shorter h
      cook inTemplate (n :: found) after
    | none => none
  | '\\' :: c :: rest =>
    if isLineEnd c then cook inTemplate found rest
    else if c.isDigit && inTemplate then
      if c = '0' && !rest.head?.any Char.isDigit then cook inTemplate (0 :: found) rest else none
    else if isOctalDigit c then
      let run := octalRun (c :: rest)
      cook inTemplate (octalValue run :: found) (rest.drop (run.length - 1))
    else cook inTemplate (shortEscape c :: found) rest
  | c :: rest => cook inTemplate (c.toNat :: found) rest
termination_by cs.length
decreasing_by all_goals simp_wf <;> omega

/-- The replacement character. -/
def replacement : Char :=
  '\ufffd'

/-- Four digits after a replacement character. -/
def replaced (n : Nat) : List Char :=
  replacement :: Text.unitDigits n

/-- Whether all the numbers are those of characters. -/
def isWellFormed (points : List Nat) : Bool :=
  !points.any isHalf

/-- The text of a list of numbers of characters. -/
def textOf (points : List Nat) : String :=
  if isWellFormed points then String.ofList (points.map Char.ofNat)
  else String.ofList (points.flatMap fun n =>
    if isHalf n || n = replacement.toNat then replaced n else [Char.ofNat n])

end PageIndex.Script
