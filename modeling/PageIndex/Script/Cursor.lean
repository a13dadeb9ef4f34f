import PageIndex.Script.Lexer

/-!
# Reading along a text

A reader moves a cursor along the text of a module, token by token, and either fails or returns
something. Some faults do not stop a reader: they are remembered by the cursor, and the module
is refused in the end. A cursor is a plain value, so looking ahead is reading from a copy.
-/

namespace PageIndex.Script

/-- The language of a module. -/
structure Dialect where
  /-- Whether types may be written. -/
  typed : Bool
  /-- Whether markup may be written. -/
  markup : Bool
deriving DecidableEq, Repr

/-- What the surroundings of the cursor allow. -/
structure Context where
  /-- Whether `in` is an operator. -/
  inOperator : Bool
  /-- Whether `yield` is an operator. -/
  yields : Bool
  /-- Whether `await` is an operator. -/
  awaits : Bool
  /-- Whether there is a function to return from. -/
  returns : Bool
  /-- Whether the text only declares things that exist elsewhere. -/
  ambient : Bool
  /-- Whether the text is a decorator. -/
  decorator : Bool
  /-- Whether a type may not go on with a condition. -/
  plainTypes : Bool
deriving DecidableEq, Repr

/-- The context of the statements of a module. -/
def Context.topLevel : Context :=
  ⟨true, false, true, false, false, false, false⟩

/-- A place in the text of a module. -/
structure Cursor where
  dialect : Dialect
  context : Context
  /-- The token that is read next. -/
  next : Lexeme
  /-- A bound on the number of tokens. -/
  size : Nat
  /-- Whether there was a fault that did not stop the reader. -/
  faulty : Bool
  /-- The number of initial values in object literals that are no patterns so far. -/
  pending : Nat

/-- A reader of something in a module. -/
abbrev Reader : Type → Type :=
  StateT Cursor Option

namespace Reader

variable {α β : Type}

/-- Fails. -/
def stop : Reader α :=
  fun _ => none

/-- Remembers a fault. -/
def fault : Reader Unit :=
  modify fun c => { c with faulty := true }

/-- Remembers a fault if there is one. -/
def faultIf (condition : Bool) : Reader Unit :=
  if condition then fault else pure ()

/-- Fails unless the condition holds. -/
def require (condition : Bool) : Reader Unit :=
  if condition then pure () else stop

/-- The next token. -/
def token : Reader Token := do
  return (← get).next.token

/-- Whether the next token is the first one of its line. -/
def onNewLine : Reader Bool := do
  return (← get).next.onNewLine

/-- Whether types may be written. -/
def typed : Reader Bool := do
  return (← get).dialect.typed

/-- Whether markup may be written. -/
def markup : Reader Bool := do
  return (← get).dialect.markup

/-- What the surroundings allow. -/
def context : Reader Context := do
  return (← get).context

/-- Moves to the token after the next one. -/
def advance : Reader Unit :=
  modify fun c => { c with next := Lexeme.first c.next.rest }

/-- Cuts the next token in another way. -/
def recut (f : Lexeme → Lexeme) : Reader Unit :=
  modify fun c => { c with next := f c.next }

/-- Moves to the first token of the given text. -/
def moveTo (rest : List Char) : Reader Unit :=
  modify fun c => { c with next := Lexeme.first rest }

/-- Reads with changed surroundings. -/
def within (change : Context → Context) (r : Reader α) : Reader α := do
  let outer ← context
  modify fun c => { c with context := change c.context }
  let a ← r
  modify fun c => { c with context := outer }
  return a

/-- Reads if that is possible, and else reads nothing. -/
def attempt (r : Reader α) : Reader (Option α) :=
  fun c =>
    match r c with
    | some (a, after) => some (some a, after)
    | none => some (none, c)

/-- Whether the condition holds further on; nothing is read. -/
def ahead (r : Reader Bool) : Reader Bool :=
  fun c =>
    match r c with
    | some (b, _) => some (b, c)
    | none => some (false, c)

/-- Repeats a step until it returns nothing, at most `n` times. -/
def repeatUpTo : Nat → (β → Reader (Option β)) → β → Reader β
  | 0, _, _ => stop
  | n + 1, step, b => do
    match ← step b with
    | some b => repeatUpTo n step b
    | none => return b

/-- Repeats a step until it returns nothing. Every step moves the cursor, so the number of tokens
bounds the steps. -/
def repeatFrom (b : β) (step : β → Reader (Option β)) : Reader β := do
  repeatUpTo ((← get).size + 1) step b

/-- Whether the next token is the mark. -/
def at? (m : Mark) : Reader Bool := do
  return (← token).isMark m

/-- Whether the next token is the word. -/
def atWord (name : String) : Reader Bool := do
  return (← token).isWord name

/-- Moves past the mark if it is next. -/
def eat (m : Mark) : Reader Bool := do
  if ← at? m then
    advance
    return true
  else return false

/-- Moves past the mark. -/
def expect (m : Mark) : Reader Unit := do
  require (← eat m)

/-- Moves past a token that may be a word with a meaning, which may not have escapes. -/
def advanceWord : Reader Unit := do
  match ← token with
  | .word name escaped => faultIf (escaped && Words.isKeyword name)
  | _ => pure ()
  advance

/-- Moves past the word if it is next. -/
def eatWord (name : String) : Reader Bool := do
  if ← atWord name then
    advanceWord
    return true
  else return false

/-- Moves past the word. -/
def expectWord (name : String) : Reader Unit := do
  require (← eatWord name)

/-- Whether the condition holds of the token after the next one, and whether that stands on the
same line as the next one. -/
def aheadToken (condition : Token → Bool → Bool) : Reader Bool :=
  ahead do
    advance
    return condition (← token) (!(← onNewLine))

/-- Whether a statement may end here without a semicolon. -/
def mayEnd : Reader Bool := do
  let t ← token
  return t == .eof || t.isMark .closeBrace || t.isMark .semicolon || (← onNewLine)

/-- Reads the end of a statement. -/
def semicolon : Reader Unit := do
  if ← mayEnd then
    discard (eat .semicolon)
  else stop

/-- Items separated by commas up to the closing mark, which is left. Also tells whether there is
a comma after the last item. -/
def items (close : Mark) (item : Reader α) : Reader (List α × Bool) := do
  if ← at? close then return ([], false)
  let first ← item
  let (found, trailing) ← repeatFrom ([first], false) fun (found, trailing) => do
    if trailing || (← at? close) then return none
    expect .comma
    if ← at? close then return some (found, true)
    return some ((← item) :: found, false)
  return (found.reverse, trailing)

/-- Items separated by commas in marks. -/
def bracketed (opening closing : Mark) (item : Reader α) : Reader (List α) := do
  expect opening
  let (found, _) ← items closing item
  expect closing
  return found

/-- Items without separators up to a closing brace. -/
def untilBrace (item : Reader α) : Reader (List α) := do
  let found ← repeatFrom [] fun found => do
    if ← eat .closeBrace then return none
    return some ((← item) :: found)
  return found.reverse

end Reader

end PageIndex.Script
