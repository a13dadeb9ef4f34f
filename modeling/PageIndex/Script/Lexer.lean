import PageIndex.Script.Numeral
import PageIndex.Script.Quoted
import PageIndex.Script.Word
import PageIndex.Text.Split

/-!
# Cutting tokens

The first token of a text. The longest mark wins, with one exception: the closing angle is a
mark of its own, so that it can close a list of types; where an operator is expected the text
is cut again. The same holds for slashes, which start a pattern where an expression starts, and
for the text between markup tags.
-/

namespace PageIndex.Script

/-- The marks by their text, with longer texts before those they start with. -/
def marks : List (List Char × Mark) :=
  [(['\x7b'], .openBrace), (['\x7d'], .closeBrace), (['('], .openParen), ([')'], .closeParen),
   (['['], .openBracket), ([']'], .closeBracket), (['.', '.', '.'], .ellipsis), (['.'], .dot),
   ([';'], .semicolon), ([','], .comma), ([':'], .colon),
   (['?', '?', '='], .coalesceAssign), (['?', '?'], .coalesce), (['?', '.'], .questionDot),
   (['?'], .question), (['@'], .at), (['<', '<', '='], .shiftLeftAssign), (['<', '<'], .shiftLeft),
   (['<', '='], .lessEqual), (['<'], .less), (['>'], .greater), (['=', '=', '='], .identical),
   (['=', '='], .equal), (['=', '>'], .arrow), (['='], .assign), (['!', '=', '='], .notIdentical),
   (['!', '='], .notEqual), (['!'], .bang), (['+', '+'], .increment), (['+', '='], .plusAssign),
   (['+'], .plus), (['-', '-'], .decrement), (['-', '='], .minusAssign), (['-'], .minus),
   (['*', '*', '='], .powerAssign), (['*', '*'], .power), (['*', '='], .starAssign),
   (['*'], .star), (['/', '='], .slashAssign), (['/'], .slash), (['%', '='], .percentAssign),
   (['%'], .percent), (['&', '&', '='], .logicalAndAssign), (['&', '&'], .logicalAnd),
   (['&', '='], .andAssign), (['&'], .ampersand), (['|', '|', '='], .logicalOrAssign),
   (['|', '|'], .logicalOr), (['|', '='], .orAssign), (['|'], .bar), (['^', '='], .caretAssign),
   (['^'], .caret), (['~'], .tilde)]

/-- The operators that start with a closing angle. -/
def angleMarks : List (List Char × Mark) :=
  [(['>', '>', '>', '='], .shiftRightZeroAssign), (['>', '>', '>'], .shiftRightZero),
   (['>', '>', '='], .shiftRightAssign), (['>', '>'], .shiftRight), (['>', '='], .greaterEqual),
   (['>'], .greater)]

/-- The first mark of a table that a text starts with. -/
def cutMark (table : List (List Char × Mark)) (cs : List Char) : Option (Token × List Char) :=
  table.findSome? fun (text, m) => (Text.dropStart? text cs).map (.mark m, ·)

/-- A question mark in front of a fraction stands alone. -/
def isFraction : List Char → Bool
  | '.' :: c :: _ => c.isDigit
  | _ => false

/-- The first token of a text that does not start with a gap. -/
def cutToken? (cs : List Char) : Option (Token × List Char) :=
  match cs with
  | [] => some (.eof, [])
  | c :: rest =>
    if Text.isIdentStart c || c = '\\' then
      (cutWord [] false cs).map fun (name, escaped, rest) =>
        (.word (String.ofList name) escaped, rest)
    else if c.isDigit || isFraction cs then cutNumeral cs
    else if c = '\x22' || c = '\'' then do
      let (raw, rest) ← cutString c [] rest
      let points ← cook false [] raw
      some (.str (textOf points) (isWellFormed points), rest)
    else if c = '\x60' then
      (cutTemplate [] rest).map fun (raw, more, rest) =>
        (.template ((cook true [] raw).map textOf) more, rest)
    else if c = '#' then (cutWord [] false rest).map fun (name, _, rest) =>
      (.privateName (String.ofList name), rest)
    else if c = '?' && isFraction rest then some (.mark .question, rest)
    else cutMark marks cs

/-- A token with what stands before and after it. -/
structure Lexeme where
  token : Token
  /-- Whether there is a line end between the token and the one before. -/
  onNewLine : Bool
  /-- The text from the token on. -/
  start : List Char
  /-- The text after the token. -/
  rest : List Char

namespace Lexeme

/-- The first token of a text. -/
def first (cs : List Char) : Lexeme :=
  match skipGap .blanks false cs with
  | none => ⟨.bad, false, cs, []⟩
  | some (line, start) =>
    match cutToken? start with
    | none => ⟨.bad, line, start, []⟩
    | some (token, rest) => ⟨token, line, start, rest⟩

/-- A closing angle cut as an operator. -/
def asOperator (l : Lexeme) : Lexeme :=
  match cutMark angleMarks l.start with
  | some (token, rest) => { l with token, rest }
  | none => l

/-- An operator that starts with an opening angle cut as that angle alone. -/
def asOpenAngle (l : Lexeme) : Lexeme :=
  match l.start with
  | '<' :: rest => { l with token := .mark .less, rest }
  | _ => l

/-- A closing brace cut as the start of the next piece of a template. -/
def asTemplate (l : Lexeme) : Lexeme :=
  match l.start with
  | '\x7d' :: text =>
    match cutTemplate [] text with
    | some (raw, more, rest) =>
      { l with token := .template ((cook true [] raw).map textOf) more, rest }
    | none => { l with token := .bad, rest := [] }
  | _ => l

end Lexeme

/-- Drops the body of a pattern and its closing slash. A slash in a class does not close it. -/
def skipPattern (inClass : Bool) : List Char → Option (List Char)
  | [] => none
  | '\\' :: c :: cs => if isLineEnd c then none else skipPattern inClass cs
  | c :: cs =>
    if isLineEnd c then none
    else if c = '/' && !inClass then some cs
    else skipPattern (c = '[' || (inClass && c ≠ ']')) cs

/-- The flags a pattern may have. -/
def patternFlags : List Char :=
  ['d', 'g', 'i', 'm', 's', 'u', 'v', 'y']

/-- Whether a character is read as a flag, right or wrong. -/
def isFlagLike (c : Char) : Bool :=
  c.isAlphanum || c = '$' || c = '_'

/-- Drops a pattern whose opening slash is dropped already. No flag may be given twice. -/
def cutPattern (cs : List Char) : Option (List Char) :=
  (skipPattern false cs).bind fun rest =>
    let flags := rest.takeWhile isFlagLike
    if flags.all patternFlags.contains && flags.eraseDups.length = flags.length then
      some (rest.dropWhile isFlagLike)
    else none

/-- Whether a character may go on a name in markup. -/
def inMarkupName (c : Char) : Bool :=
  c = '-' || Text.isIdentContinue c

/-- Drops the text between markup tags, which may hold neither closing mark. -/
def skipMarkupText : List Char → Option (List Char)
  | [] => some []
  | c :: cs =>
    if c = '<' || c = '\x7b' then some (c :: cs)
    else if c = '>' || c = '\x7d' then none
    else skipMarkupText cs

/-- Drops the value of a markup attribute up to its closing mark. -/
def skipMarkupString (quote : Char) : List Char → Option (List Char)
  | [] => none
  | c :: cs => if c = quote then some cs else skipMarkupString quote cs

end PageIndex.Script
