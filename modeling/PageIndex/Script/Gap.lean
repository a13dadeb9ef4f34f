/-!
# Gaps

What may stand between two tokens of a script: blanks, line ends and comments. Whether a gap
holds a line end is kept, because some rules of the grammar ask for it.
-/

namespace PageIndex.Script

/-- The characters that end a line. -/
def isLineEnd (c : Char) : Bool :=
  c = '\n' || c = '\r' || c = '\u2028' || c = '\u2029'

/-- The blanks of scripts that are not line ends. -/
def isGapBlank (c : Char) : Bool :=
  let n := c.toNat
  n = 0x20 || n = 0x09 || n = 0x0b || n = 0x0c || n = 0x85 || n = 0xa0 || n = 0xfeff ||
    n = 0x1680 || (0x2000 ≤ n && n ≤ 0x200b) || n = 0x202f || n = 0x205f || n = 0x3000

/-- Where in a gap a character stands. -/
inductive GapPart where
  | blanks
  | lineComment
  | blockComment

/-- Drops a gap, and tells whether it holds a line end. A block comment that is not closed makes
the text wrong. -/
def skipGap : GapPart → Bool → List Char → Option (Bool × List Char)
  | .blanks, line, '/' :: '/' :: cs => skipGap .lineComment line cs
  | .blanks, line, '/' :: '*' :: cs => skipGap .blockComment line cs
  | .blanks, line, c :: cs =>
    if isLineEnd c then skipGap .blanks true cs
    else if isGapBlank c then skipGap .blanks line cs
    else some (line, c :: cs)
  | .lineComment, line, c :: cs =>
    if isLineEnd c then skipGap .blanks true cs else skipGap .lineComment line cs
  | .blockComment, line, '*' :: '/' :: cs => skipGap .blanks line cs
  | .blockComment, line, c :: cs => skipGap .blockComment (line || isLineEnd c) cs
  | .blockComment, _, [] => none
  | _, line, [] => some (line, [])

end PageIndex.Script
