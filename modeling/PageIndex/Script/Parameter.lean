import PageIndex.Script.Name

/-!
# Patterns and parameters

Patterns of bindings, which take values apart, and the parameters of functions.
-/

namespace PageIndex.Script

/-- What kind of function parameters belong to. -/
inductive Callable where
  | plain
  | method
  | builder
deriving DecidableEq, Repr

/-- What is known of parameters. -/
structure Parameters where
  /-- The number of parameters that take one argument each. -/
  count : Nat
  /-- Whether one of them has an initial value. -/
  hasInitial : Bool
  /-- Whether the last parameter takes the remaining arguments. -/
  hasRest : Bool
  /-- Whether there is a parameter named `this`. -/
  hasSelf : Bool

namespace Reader

/-- A type after a colon, if there is one. -/
def typeAfterColon (r : Rules) : Reader Bool := do
  if (← typed) && (← eat .colon) then
    r .type
    return true
  else return false

/-- An initial value, if there is one. -/
def initial (r : Rules) : Reader Bool := do
  if ← eat .assign then
    discard (assigned r)
    return true
  else return false

/-- A pattern with its type and its initial value. Returns whether it has an initial value. -/
def bindingWithInitial (r : Rules) : Reader Bool := do
  discard (r .binding)
  if ← typed then discard (eat .question)
  discard (typeAfterColon r)
  initial r

/-- Items of which one that takes the rest must be the last. Returns what was read for the
others, and whether there is one that takes the rest. -/
def itemsWithRest {α : Type} (close : Mark) (item : Reader α) (rest : Reader Unit) :
    Reader (List α × Bool) := do
  let (found, trailing) ← items close do
    if ← eat .ellipsis then
      rest
      return none
    else return some (← item)
  let restInside := found.dropLast.any (·.isNone)
  let restLast := found.getLast?.any (·.isNone)
  faultIf (restInside || (restLast && trailing))
  return (found.filterMap id, restInside || restLast)

/-- A pattern that takes the rest of an array. -/
def restBinding (r : Rules) : Reader Unit := do
  discard (r .binding)
  discard (typeAfterColon r)
  faultIf (← initial r)

/-- A binding in an object pattern. -/
def propertyBinding (r : Rules) : Reader Unit := do
  let t ← token
  let key ← propertyName r
  if t.isIdentifier && !(← at? .colon) then
    match key with
    | .name _ => discard (initial r)
    | _ => stop
  else
    expect .colon
    discard (bindingWithInitial r)

/-- A binding that takes the rest of an object, which must be a name. -/
def restPropertyBinding (r : Rules) : Reader Unit := do
  let name ← r .binding
  discard (typeAfterColon r)
  faultIf (name.isNone || (← initial r))

/-- A pattern of bindings. -/
def bindingRule (r : Rules) : Reader (Option String) := do
  let t ← token
  if t.isMark .openBrace then
    advance
    discard (itemsWithRest .closeBrace (propertyBinding r) (restPropertyBinding r))
    expect .closeBrace
    return none
  else if t.isMark .openBracket then
    advance
    let item : Reader Unit := do
      if !(← at? .comma) then discard (bindingWithInitial r)
    discard (itemsWithRest .closeBracket item (restBinding r))
    expect .closeBracket
    return none
  else return some (← bindingName)

/-- Decorators, and whether there are any. -/
def decorators (r : Rules) : Reader Bool :=
  repeatFrom false fun _ => do
    if ← eat .at then
      discard (within (fun c => { c with decorator := true }) (r .access))
      return some true
    else return none

/-- The modifiers that make a parameter of a constructor a field. -/
def fieldModifiers : List String :=
  ["public", "private", "protected", "readonly", "override"]

/-- A parameter. Returns whether it has an initial value. -/
def parameter (r : Rules) (callable : Callable) : Reader Bool := do
  let decorated ← decorators r
  faultIf (decorated && callable = .plain)
  let found ← modifiers false false
  let allowed := (← typed) && callable = .builder && found.all fieldModifiers.contains
  faultIf (!found.isEmpty && !allowed)
  bindingWithInitial r

/-- A parameter that takes the remaining arguments. -/
def restParameter (r : Rules) : Reader Unit := do
  discard (r .binding)
  faultIf (← eat .question)
  discard (typeAfterColon r)
  faultIf (← initial r)

/-- The parameters of a function, in parentheses. A first parameter named `this` has a type
only. -/
def parameters (r : Rules) (callable : Callable) : Reader Parameters := do
  expect .openParen
  let hasSelf := (← typed) && (← atWord "this")
  if hasSelf then
    advanceWord
    discard (typeAfterColon r)
    if !(← at? .closeParen) then expect .comma
  let (found, hasRest) ← itemsWithRest .closeParen (parameter r callable) (restParameter r)
  expect .closeParen
  return ⟨found.length, found.any id, hasRest, hasSelf⟩

end Reader

end PageIndex.Script
