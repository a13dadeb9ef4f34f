import PageIndex.Json.Basic
import PageIndex.Number.Notation
import PageIndex.Text.Hex

/-!
# The text of a JSON value

Two written forms: the compact one without blanks, and the indented one with one member or
item per line. Only the quotation mark, the reverse solidus and the controls below U+0020 are
escaped in a string.
-/

namespace PageIndex.Json

/-- Doubles are positional from `0.00001` up to 16 digits before the point, and always show that
they are no integers. -/
def doubleLayout : Decimal.Layout where
  positionalFrom := -5
  positionalTo := 15
  wholeSuffix := ['.', '0']
  exponentMark := ['e']
  exponentPlus := ['+']

/-- The text of a finite double. Infinities have no JSON text and are written as `null`. -/
def doubleText : Binary64 → List Char
  | .finite negative units =>
    (if negative then ['-'] else []) ++ (Decimal.shortest units).toText doubleLayout
  | .infinite _ => ['n', 'u', 'l', 'l']

/-- One character inside a string text. -/
def escape (c : Char) : List Char :=
  if c = '\x22' then ['\\', '\x22']
  else if c = '\\' then ['\\', '\\']
  else if c = '\x08' then ['\\', 'b']
  else if c = '\x0c' then ['\\', 'f']
  else if c = '\n' then ['\\', 'n']
  else if c = '\r' then ['\\', 'r']
  else if c = '\t' then ['\\', 't']
  else if c.toNat < 0x20 then
    ['\\', 'u', '0', '0', Text.hexDigit (c.toNat / 16), Text.hexDigit (c.toNat % 16)]
  else [c]

/-- The text of a string, with its quotation marks. -/
def stringText (s : String) : List Char :=
  '\x22' :: (s.toList.flatMap escape ++ ['\x22'])

/-- The text of a value that is neither an array nor an object. -/
def scalarText : Json → List Char
  | .null => ['n', 'u', 'l', 'l']
  | .bool true => ['t', 'r', 'u', 'e']
  | .bool false => ['f', 'a', 'l', 's', 'e']
  | .int n => Decimal.intText n
  | .double x => doubleText x
  | .str s => stringText s
  | .arr _ => []
  | .obj _ => []

mutual

/-- The compact text. -/
def compact : Json → List Char
  | .arr items => '[' :: (compactItems items ++ [']'])
  | .obj members => '\x7b' :: (compactMembers members ++ ['\x7d'])
  | scalar => scalarText scalar

/-- Items with commas between them. -/
def compactItems : List Json → List Char
  | [] => []
  | [v] => compact v
  | v :: w :: rest => compact v ++ ',' :: compactItems (w :: rest)

/-- Members with commas between them. -/
def compactMembers : List (String × Json) → List Char
  | [] => []
  | [(k, v)] => stringText k ++ ':' :: compact v
  | (k, v) :: m :: rest => stringText k ++ ':' :: (compact v ++ ',' :: compactMembers (m :: rest))

end

/-- A line break and the indentation of the given depth, two spaces a level. -/
def newline (depth : Nat) : List Char :=
  '\n' :: List.replicate (2 * depth) ' '

mutual

/-- The indented text of a value that stands at the given depth. -/
def indented (depth : Nat) : Json → List Char
  | .arr [] => ['[', ']']
  | .arr (v :: rest) =>
    '[' :: (newline (depth + 1) ++ indented (depth + 1) v ++ indentedItems (depth + 1) rest ++
      newline depth ++ [']'])
  | .obj [] => ['\x7b', '\x7d']
  | .obj ((k, v) :: rest) =>
    '\x7b' :: (newline (depth + 1) ++ stringText k ++ ':' :: ' ' :: indented (depth + 1) v ++
      indentedMembers (depth + 1) rest ++ newline depth ++ ['\x7d'])
  | scalar => scalarText scalar

/-- The items after the first, each after a comma on a line of its own. -/
def indentedItems (depth : Nat) : List Json → List Char
  | [] => []
  | v :: rest => ',' :: (newline depth ++ indented depth v ++ indentedItems depth rest)

/-- The members after the first, each after a comma on a line of its own. -/
def indentedMembers (depth : Nat) : List (String × Json) → List Char
  | [] => []
  | (k, v) :: rest =>
    ',' :: (newline depth ++ stringText k ++ ':' :: ' ' :: indented depth v ++
      indentedMembers depth rest)

end

/-- The compact text as a string. -/
def toText (j : Json) : String :=
  String.ofList (compact j)

/-- The indented text as a string. -/
def toIndentedText (j : Json) : String :=
  String.ofList (indented 0 j)

end PageIndex.Json
