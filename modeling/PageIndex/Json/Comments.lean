import PageIndex.Text.Blank

/-!
# Comments and trailing commas

The text of a JSON file with comments, made into plain JSON without moving anything: each
character of a comment becomes a space, except for the line breaks inside it, and a comma that
only blanks and comments separate from a closing brace or bracket becomes a space too. Strings
are copied as they are. The text keeps its number of characters, and so do its lines.
-/

namespace PageIndex.Json

/-- A character that ends a line. -/
def isLineEnd (c : Char) : Bool :=
  c = '\n' || c = '\r'

/-- What is left of a character inside a comment. -/
def blanked (c : Char) : Char :=
  if isLineEnd c then c else ' '

/-- A closing brace or bracket. -/
def isCloser (c : Char) : Bool :=
  c = '\x7d' || c = ']'

/-- Where a scan over the text is. -/
inductive Scan where
  /-- Between tokens, or in one that is no string. -/
  | outside
  /-- Inside a string. -/
  | string
  /-- Inside a string, after a reverse solidus. -/
  | escaped
  /-- In a comment that ends with its line. -/
  | lineComment
  /-- In a comment that ends with a star and a solidus. -/
  | blockComment
deriving DecidableEq, Repr

/-- Whether the next token is a closing brace or bracket. -/
def closerFollows : Scan → List Char → Bool
  | .outside, '/' :: '/' :: cs => closerFollows .lineComment cs
  | .outside, '/' :: '*' :: cs => closerFollows .blockComment cs
  | .outside, c :: cs => isCloser c || (Text.isBlank c && closerFollows .outside cs)
  | .lineComment, c :: cs => closerFollows (if isLineEnd c then .outside else .lineComment) cs
  | .blockComment, '*' :: '/' :: cs => closerFollows .outside cs
  | .blockComment, _ :: cs => closerFollows .blockComment cs
  | _, _ => false

/-- At the end of a text no closing mark follows. -/
theorem closerFollows_nil (s : Scan) : closerFollows s [] = false := by
  cases s <;> simp [closerFollows]

/-- The text with blanks for its comments and trailing commas, from a given place of the scan. -/
def stripFrom : Scan → List Char → List Char
  | _, [] => []
  | .outside, '/' :: '/' :: cs => ' ' :: ' ' :: stripFrom .lineComment cs
  | .outside, '/' :: '*' :: cs => ' ' :: ' ' :: stripFrom .blockComment cs
  | .outside, c :: cs =>
    if c = ',' then (if closerFollows .outside cs then ' ' else ',') :: stripFrom .outside cs
    else c :: stripFrom (if c = '\x22' then .string else .outside) cs
  | .string, c :: cs =>
    c :: stripFrom (if c = '\\' then .escaped else if c = '\x22' then .outside else .string) cs
  | .escaped, c :: cs => c :: stripFrom .string cs
  | .lineComment, c :: cs =>
    blanked c :: stripFrom (if isLineEnd c then .outside else .lineComment) cs
  | .blockComment, '*' :: '/' :: cs => ' ' :: ' ' :: stripFrom .outside cs
  | .blockComment, c :: cs => blanked c :: stripFrom .blockComment cs

/-- At the end of a text nothing is left to be copied. -/
theorem stripFrom_nil (s : Scan) : stripFrom s [] = [] := by
  rw [stripFrom]

/-- The text with blanks for its comments and trailing commas. -/
def strip (text : List Char) : List Char :=
  stripFrom .outside text

/-- The text with blanks for its comments and trailing commas, as a string
(`strip_json_comments`). -/
def stripComments (text : String) : String :=
  String.ofList (strip text.toList)

end PageIndex.Json
