import PageIndex.Number.Binary64

/-!
# Tokens of scripts

The tokens of a script module. Keywords are words like any other; what a word may be used for
depends on where it stands, and the classes below answer such questions.
-/

namespace PageIndex.Script

/-- A punctuation mark. The closing angle is always a token of one character; longer operators
that start with it are put together where an operator is expected. -/
inductive Mark where
  | openBrace | closeBrace | openParen | closeParen | openBracket | closeBracket
  | dot | ellipsis | semicolon | comma | colon | question | questionDot | arrow | at
  | less | greater | lessEqual | greaterEqual | equal | notEqual | identical | notIdentical
  | plus | minus | star | slash | percent | power | increment | decrement
  | shiftLeft | shiftRight | shiftRightZero | ampersand | bar | caret | bang | tilde
  | logicalAnd | logicalOr | coalesce
  | assign | plusAssign | minusAssign | starAssign | slashAssign | percentAssign | powerAssign
  | shiftLeftAssign | shiftRightAssign | shiftRightZeroAssign
  | andAssign | orAssign | caretAssign | logicalAndAssign | logicalOrAssign | coalesceAssign
deriving DecidableEq, Repr, Inhabited

/-- A token. -/
inductive Token where
  | eof
  /-- A word, and whether a character of it was written as an escape. -/
  | word (name : String) (escaped : Bool)
  /-- A name after a hash sign. -/
  | privateName (name : String)
  | number (x : Binary64)
  | bigint
  /-- A string, and whether it holds only whole characters. -/
  | str (value : String) (wellFormed : Bool)
  /-- A piece of a template: its text, unless it holds a wrong escape, and whether the template
  goes on with an expression. -/
  | template (text : Option String) (more : Bool)
  | mark (m : Mark)
  /-- Characters that are no token. -/
  | bad
deriving DecidableEq, Repr, Inhabited

namespace Words

/-- The words that can never be names of bindings. -/
def reserved : List String :=
  ["break", "case", "catch", "class", "const", "continue", "debugger", "default", "delete", "do",
   "else", "enum", "export", "extends", "false", "finally", "for", "function", "if", "import",
   "in", "instanceof", "new", "null", "return", "super", "switch", "this", "throw", "true", "try",
   "typeof", "var", "void", "while", "with"]

/-- The words with a meaning in some places that may be names of bindings in others. -/
def contextual : List String :=
  ["abstract", "accessor", "any", "as", "assert", "asserts", "async", "await", "bigint", "boolean",
   "constructor", "declare", "defer", "from", "get", "global", "implements", "infer", "interface",
   "intrinsic", "is", "keyof", "let", "meta", "module", "namespace", "never", "number", "object",
   "of", "out", "override", "package", "private", "protected", "public", "readonly", "require",
   "satisfies", "set", "source", "static", "string", "symbol", "target", "type", "undefined",
   "unique", "unknown", "using", "yield"]

/-- The words that strict code keeps for later. -/
def future : List String :=
  ["implements", "interface", "let", "package", "private", "protected", "public", "static", "yield"]

/-- The words that may stand in front of a declaration or a member. -/
def modifiers : List String :=
  ["abstract", "accessor", "async", "const", "declare", "default", "export", "in", "out",
    "override", "private", "protected", "public", "readonly", "static"]

/-- Whether a word is reserved. -/
def isReserved (name : String) : Bool :=
  reserved.contains name

/-- Whether a word has a meaning somewhere. -/
def isKeyword (name : String) : Bool :=
  reserved.contains name || contextual.contains name

end Words

namespace Token

/-- Whether the token is the given mark. -/
def isMark (t : Token) (m : Mark) : Bool :=
  match t with
  | .mark n => n == m
  | _ => false

/-- Whether the token is the given word, whatever way it is written. -/
def isWord (t : Token) (name : String) : Bool :=
  match t with
  | .word n _ => n == name
  | _ => false

/-- The text of a word. -/
def word? : Token → Option String
  | .word n _ => some n
  | _ => none

/-- Whether the token is a word that is not reserved. -/
def isIdentifier : Token → Bool
  | .word n _ => !Words.isReserved n
  | _ => false

/-- Whether the token may be a name that refers to something: a word that is not reserved, with
`yield` and `await` only where they are not operators. -/
def isReference (t : Token) (inYield inAwait : Bool) : Bool :=
  match t with
  | .word n _ =>
    if n = "yield" then !inYield
    else if n = "await" then !inAwait
    else !Words.isReserved n
  | _ => false

/-- Whether the token is a word that may stand in front of a declaration. -/
def isModifier : Token → Bool
  | .word n _ => Words.modifiers.contains n
  | _ => false

/-- Whether the token is the name of a private member. -/
def isPrivateName : Token → Bool
  | .privateName _ => true
  | _ => false

/-- Whether the token is a string. -/
def isString : Token → Bool
  | .str _ _ => true
  | _ => false

/-- Whether the token may be the name of a property without brackets. -/
def isPropertyName : Token → Bool
  | .word _ _ => true
  | .str _ _ => true
  | .number _ => true
  | .bigint => true
  | _ => false

/-- Whether the token starts a template. -/
def isTemplate : Token → Bool
  | .template _ _ => true
  | _ => false

end Token

end PageIndex.Script
