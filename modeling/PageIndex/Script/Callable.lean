import PageIndex.Script.TypeNote

/-!
# Functions and classes

The parts of functions, methods and classes. What is inside them is no value that could be
known without running the module, so they are read and leave no trace.
-/

namespace PageIndex.Script

namespace Reader

/-- Statements in braces. -/
def block (r : Rules) : Reader Unit := do
  expect .openBrace
  discard (untilBrace (r (.statement .list)))

/-- The body of a function. -/
def functionBody (r : Rules) : Reader Unit :=
  within (fun c => { c with returns := true, inOperator := true, decorator := false }) (block r)

/-- A function from its type parameters on. Where types may be written, some functions have no
body. Returns what is known of the parameters. -/
def functionRest (r : Rules) (isAsync isGenerator bodyless : Bool) (callable : Callable) :
    Reader Parameters :=
  within (fun c => { c with
      inOperator := true, awaits := isAsync, yields := isGenerator, decorator := false }) do
    typeParameters r
    let found ← parameters r callable
    resultAfterColon r
    if ← at? .openBrace then functionBody r
    else
      require (bodyless && (← typed))
      semicolon
    return found

/-- A function expression from its keyword on. -/
def functionExpression (r : Rules) (isAsync : Bool) : Reader Unit := do
  expectWord "function"
  let isGenerator ← eat .star
  if (← token).isIdentifier then
    within (fun c => { c with awaits := isAsync, yields := isGenerator }) (discard bindingName)
  discard (functionRest r isAsync isGenerator false .plain)

/-- A method that reads or writes a property, from its name on. A reader has no parameters. A
writer has one, which in typed modules has no initial value. -/
def accessorRest (r : Rules) (writes : Bool) : Reader Unit := do
  let found ← functionRest r false false true .method
  if writes then
    faultIf (found.count ≠ 1 || found.hasRest)
    faultIf (found.hasInitial && (← typed))
  else faultIf (found.count ≠ 0 || found.hasRest)

/-- Whether `async` starts a function. -/
def asyncFunctionAhead : Reader Bool := do
  if ← atWord "async" then aheadToken fun u same => same && u.isWord "function" else return false

/-- The modifiers that members of classes may have without types. -/
def untypedModifiers : List String :=
  ["static", "async", "accessor"]

/-- The modifiers that no member of a class may have. -/
def foreignModifiers : List String :=
  ["const", "default", "export", "in", "out"]

/-- The modifiers that only fields may have. -/
def fieldOnlyModifiers : List String :=
  ["accessor", "declare", "readonly"]

/-- Refuses names that have a meaning of their own in classes. -/
def checkMemberName (name : MemberName) (isStatic : Bool) : Reader Unit :=
  faultIf (if isStatic then name.isNamed "prototype" else name.isNamed "constructor")

/-- The constructor of a class from its name on. -/
def constructorRest (r : Rules) (found : List String) : Reader Unit := do
  advance
  faultIf (found.contains "async" || found.any fieldOnlyModifiers.contains)
  faultIf (← at? .less)
  faultIf (← functionRest r false false true .builder).hasSelf

/-- A reader or writer of a class from its name on. -/
def classAccessor (r : Rules) (found : List String) (writes : Bool) : Reader Unit := do
  checkMemberName (← memberName r) (found.contains "static")
  faultIf (found.contains "async" || found.any fieldOnlyModifiers.contains)
  accessorRest r writes

/-- A method or a field of a class. -/
def methodOrField (r : Rules) (found : List String) : Reader Unit := do
  let isGenerator ← eat .star
  checkMemberName (← memberName r) (found.contains "static")
  if ← typed then discard (eat .question)
  if isGenerator || (← at? .openParen) || (← at? .less) then
    faultIf (found.any fieldOnlyModifiers.contains)
    discard (functionRest r (found.contains "async") isGenerator true .method)
  else
    faultIf (found.contains "async")
    if ← typed then discard (eat .bang)
    discard (typeAfterColon r)
    within (fun c => { c with awaits := false, yields := false }) (discard (initial r))
    semicolon

/-- Statements that are run once for a class. -/
def staticBlock (r : Rules) : Reader Unit := do
  expectWord "static"
  within (fun c => { c with awaits := true, yields := false, returns := false }) (block r)

/-- A member of a class. -/
def classMember (r : Rules) : Reader Unit := do
  if ← eat .semicolon then return
  let decorated ← decorators r
  let found ← modifiers true true
  let isTyped ← typed
  faultIf (found.any fun m =>
    foreignModifiers.contains m || (!isTyped && !untypedModifiers.contains m))
  within (fun c => { c with ambient := c.ambient || found.contains "declare" }) do
    let t ← token
    let namesConstructor := t.isWord "constructor" || t == .str "constructor" true
    if t.isWord "static" && (← aheadToken fun u _ => u.isMark .openBrace) then
      faultIf (decorated || !found.isEmpty)
      staticBlock r
    else if ← eatAccessor "get" then classAccessor r found false
    else if ← eatAccessor "set" then classAccessor r found true
    else if namesConstructor && !found.contains "static" &&
        (← aheadToken fun u _ => u.isMark .openParen || u.isMark .less) then
      constructorRest r found
    else if isTyped && t.isMark .openBracket && (← indexSignatureAhead) then indexSignature r
    else methodOrField r found

/-- The class that a class extends, and the interfaces that it implements. -/
def heritage (r : Rules) : Reader Unit :=
  repeatFrom () fun _ => do
    if ← eatWord "extends" then
      discard (r .access)
      if ← typed then typeArguments r
      return some ()
    else if (← typed) && (← eatWord "implements") then
      namedType r
      repeatFrom () fun _ => do
        if ← eat .comma then
          namedType r
          return some ()
        else return none
      return some ()
    else return none

/-- A class from its keyword on. -/
def classRest (r : Rules) (nameless : Bool) : Reader Unit := do
  expectWord "class"
  let t ← token
  if t.isIdentifier && !t.isWord "implements" then discard bindingName
  else faultIf (!nameless)
  typeParameters r
  heritage r
  expect .openBrace
  within (fun c => { c with inOperator := true, decorator := false, returns := false })
    (discard (untilBrace (classMember r)))

end Reader

end PageIndex.Script
