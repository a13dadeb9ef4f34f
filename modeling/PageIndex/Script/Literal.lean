import PageIndex.Script.Callable

/-!
# Literals

Object and array literals and templates, which write values down. Object and array literals
may turn out to be patterns, so it is kept what each part would be in a pattern.
-/

namespace PageIndex.Script

namespace Reader

/-- The text of a piece of a template, which must have right escapes unless a function takes it. -/
def templateText (tagged : Bool) (text : Option String) : Reader String := do
  faultIf (!tagged && text.isNone)
  return text.getD ""

/-- A template from its first piece on. -/
def template (r : Rules) (tagged : Bool) : Reader Expr := do
  match ← token with
  | .template text false =>
    let text ← templateText tagged text
    advance
    return .template text
  | .template text true =>
    discard (templateText tagged text)
    advance
    repeatFrom () fun _ => do
      discard (within (fun c => { c with inOperator := true, decorator := false }) (r .expression))
      recut Lexeme.asTemplate
      match ← token with
      | .template text more =>
        discard (templateText tagged text)
        advance
        return if more then some () else none
      | _ => stop
    return .other .interpolation
  | _ => stop

/-- A method of an object literal from its parameters on. -/
def objectMethod (r : Rules) (key : Key) (found : List String) (isGenerator : Bool) :
    Reader (Member × PatternPart) := do
  faultIf (found.any (· ≠ "async"))
  discard (functionRest r (found.contains "async") isGenerator true .method)
  return (.method key, ⟨none, false⟩)

/-- A property whose value is the variable of its name. In a pattern it may have an initial
value. -/
def shorthand (r : Rules) (name : String) : Reader (Member × PatternPart) := do
  let member := Member.property (.name name) (.reference name)
  if ← eat .assign then
    discard (r (.assignment true))
    modify fun c => { c with pending := c.pending + 1 }
    return (member, ⟨some 1, false⟩)
  else return (member, ⟨some 0, false⟩)

/-- A member of an object literal. -/
def objectMember (r : Rules) : Reader (Member × PatternPart) := do
  if ← eat .ellipsis then
    let o ← r (.assignment true)
    return (.spread, ⟨o.asTarget?, true⟩)
  let found ← modifiers false false
  if ← eatAccessor "get" then
    let key ← propertyName r
    accessorRest r false
    return (.accessor key, ⟨none, false⟩)
  if ← eatAccessor "set" then
    let key ← propertyName r
    accessorRest r true
    return (.accessor key, ⟨none, false⟩)
  let isGenerator ← eat .star
  let c ← context
  let isReference := (← token).isReference c.yields c.awaits
  let key ← propertyName r
  if isGenerator || (← at? .openParen) || (← at? .less) then
    return ← objectMethod r key found isGenerator
  faultIf (!found.isEmpty)
  if isReference && !(← at? .colon) then
    match key with
    | .name name => shorthand r name
    | _ => stop
  else
    expect .colon
    let o ← r (.assignment true)
    return (.property key o.expr, ⟨o.asElement?, false⟩)

/-- An object literal. -/
def objectLiteral (r : Rules) : Reader Operand := do
  expect .openBrace
  let (found, trailing) ← within (fun c => { c with inOperator := true, decorator := false })
    (items .closeBrace (objectMember r))
  expect .closeBrace
  return ⟨.object (found.map (·.1)), Place.ofParts (found.map (·.2)) trailing, false⟩

/-- An item of an array literal. -/
def arrayItem (r : Rules) : Reader (Item × PatternPart) := do
  if ← at? .comma then return (.hole, ⟨some 0, false⟩)
  else if ← eat .ellipsis then
    let o ← r (.assignment true)
    return (.spread, ⟨o.asTarget?, true⟩)
  else
    let o ← r (.assignment true)
    return (.item o.expr, ⟨o.asElement?, false⟩)

/-- An array literal. -/
def arrayLiteral (r : Rules) : Reader Operand := do
  expect .openBracket
  let (found, trailing) ← within (fun c => { c with inOperator := true, decorator := false })
    (items .closeBracket (arrayItem r))
  expect .closeBracket
  return ⟨.array (found.map (·.1)), Place.ofParts (found.map (·.2)) trailing, false⟩

end Reader

end PageIndex.Script
