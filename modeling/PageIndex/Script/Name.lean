import PageIndex.Script.Goal

/-!
# Names and modifiers

The names of bindings and properties, and the words in front of a declaration or a member that
say more about it. Such a word is only a modifier if something that can be modified follows.
-/

namespace PageIndex.Script

/-- Whether a token starts the name of a member. -/
def Token.startsName (t : Token) : Bool :=
  t.isPropertyName || t.isPrivateName || t.isMark .openBracket

/-- Whether a token can come after a modifier. -/
def Token.followsModifier (t : Token) : Bool :=
  t.startsName || t.isMark .openBrace || t.isMark .star || t.isMark .ellipsis

namespace Reader

/-- The text of a word, whatever the word. -/
def anyWord : Reader String := do
  match ← token with
  | .word name _ =>
    advance
    return name
  | _ => stop

/-- The name of a binding. -/
def bindingName : Reader String := do
  let t ← token
  require t.isIdentifier
  let c ← context
  faultIf ((t.isWord "yield" && c.yields) || (t.isWord "await" && c.awaits))
  anyWord

/-- An expression without commas, in which `in` is an operator. -/
def assigned (r : Rules) : Reader Operand :=
  within (fun c => { c with inOperator := true }) (r (.assignment true))

/-- The name of a property. -/
def propertyName (r : Rules) : Reader Key := do
  match ← token with
  | .word name _ =>
    advance
    return .name name
  | .str text _ =>
    advance
    return .quoted text
  | .number _ =>
    advance
    return .numeric
  | .bigint =>
    advance
    return .numeric
  | .mark .openBracket =>
    advance
    discard (assigned r)
    expect .closeBracket
    return .computed
  | _ => stop

/-- The name of a class member. -/
inductive MemberName where
  | plain (key : Key)
  | hidden (name : String)
deriving DecidableEq, Repr

/-- Whether a member has the given name, which is not computed. -/
def MemberName.isNamed (n : MemberName) (name : String) : Bool :=
  n == .plain (.name name) || n == .plain (.quoted name)

/-- The name of a class member, which may be private. -/
def memberName (r : Rules) : Reader MemberName := do
  match ← token with
  | .privateName name =>
    faultIf (name = "constructor")
    advance
    return .hidden name
  | _ => return .plain (← propertyName r)

/-- Whether what follows `default` is a declaration. -/
def defaultAhead : Reader Bool :=
  ahead do
    advance
    let t ← token
    if t.isWord "class" || t.isWord "function" || t.isWord "interface" then return true
    let abstractClass ← aheadToken fun u same => t.isWord "abstract" && u.isWord "class" && same
    let asyncFunction ← aheadToken fun u same => t.isWord "async" && u.isWord "function" && same
    return abstractClass || asyncFunction

/-- Whether the next word is a modifier. The word `const` is one in front of `enum`, or
anywhere if `constAllowed`. -/
def modifierAhead (constAllowed : Bool) : Reader Bool := do
  let t ← token
  if !t.isModifier then return false
  else if t.isWord "const" then
    if constAllowed then aheadToken fun u same => same && u.followsModifier
    else aheadToken fun u _ => u.isWord "enum"
  else if t.isWord "export" then
    aheadToken fun u _ => u.followsModifier && !u.isMark .star && !u.isMark .openBrace
  else if t.isWord "default" then defaultAhead
  else if t.isWord "static" then aheadToken fun u _ => u.followsModifier
  else aheadToken fun u same => same && u.followsModifier

/-- The modifiers that say who can see a member. -/
def visibilities : List String :=
  ["public", "private", "protected"]

/-- Modifiers, each of which may be given once. A static block, which starts with `static` and a
brace, is no modifier. -/
def modifiers (constAllowed inClass : Bool) : Reader (List String) := do
  let found ← repeatFrom [] fun found => do
    let t ← token
    if t.isWord "static" then
      if found.contains "static" then return none
      if inClass && (← aheadToken fun u _ => u.isMark .openBrace) then return none
    if ← modifierAhead constAllowed then
      let name := (t.word?).getD ""
      faultIf (found.contains name ||
        (visibilities.contains name && found.any visibilities.contains))
      advanceWord
      return some (name :: found)
    else return none
  return found.reverse

/-- Moves past `get` or `set` in front of a name. -/
def eatAccessor (name : String) : Reader Bool := do
  if (← atWord name) && (← aheadToken fun u _ => u.startsName) then eatWord name
  else return false

end Reader

end PageIndex.Script
