import PageIndex.Script.Literal

/-!
# Operands with accesses

The operands of expressions, and what may follow them without an operator in between: accesses
to members, calls, templates and types.
-/

namespace PageIndex.Script

/-- Whether a token can start an expression. -/
def Token.startsExpression : Token → Bool
  | .word name _ =>
    !Words.isReserved name ||
      ["class", "delete", "false", "function", "import", "new", "null", "super", "this", "true",
       "typeof", "void"].contains name
  | .privateName _ => true
  | .number _ => true
  | .bigint => true
  | .str _ _ => true
  | .template _ _ => true
  | .mark m =>
    [Mark.openBrace, .openParen, .openBracket, .less, .slash, .slashAssign, .plus, .minus, .bang,
     .tilde, .increment, .decrement, .at].contains m
  | .eof => false
  | .bad => false

/-- How tightly the operator between two operands binds, if the token is one. -/
def Token.level? : Token → Option Nat
  | .mark .coalesce => some 1
  | .mark .logicalOr => some 2
  | .mark .logicalAnd => some 3
  | .mark .bar => some 4
  | .mark .caret => some 5
  | .mark .ampersand => some 6
  | .mark .equal => some 7
  | .mark .notEqual => some 7
  | .mark .identical => some 7
  | .mark .notIdentical => some 7
  | .mark .less => some 8
  | .mark .greater => some 8
  | .mark .lessEqual => some 8
  | .mark .greaterEqual => some 8
  | .word "instanceof" _ => some 8
  | .word "in" _ => some 8
  | .word "as" _ => some 8
  | .word "satisfies" _ => some 8
  | .mark .shiftLeft => some 9
  | .mark .shiftRight => some 9
  | .mark .shiftRightZero => some 9
  | .mark .plus => some 10
  | .mark .minus => some 10
  | .mark .star => some 11
  | .mark .slash => some 11
  | .mark .percent => some 11
  | .mark .power => some 12
  | _ => none

namespace Reader

/-- Types in angles after an operand. They are only read as such if what follows could not go on
after a comparison. -/
def operandTypes (r : Rules) : Reader Unit := do
  recut fun l => if l.token.isMark .shiftLeft then l.asOpenAngle else l
  expect .less
  let (found, _) ← items .greater (r .type)
  faultIf found.isEmpty
  require (← at? .greater)
  require (!(← get).next.asOperator.token.isMark .greaterEqual)
  advance
  let t ← token
  if t.isMark .openParen || t.isTemplate then return
  if t.isMark .less || t.isMark .greater || t.isMark .plus || t.isMark .minus then stop
  require ((← onNewLine) || t.level?.isSome || !t.startsExpression)

/-- The arguments of a call. -/
def arguments (r : Rules) : Reader Unit := do
  let argument : Reader Unit := do
    discard (eat .ellipsis)
    discard (r (.assignment true))
  within (fun c => { c with inOperator := true, decorator := false })
    (discard (bracketed .openParen .closeParen argument))

/-- The name of a member after a point. -/
def pointedName : Reader Unit := do
  if (← token).isPrivateName then advance else discard anyWord

/-- The expression that tells a member, in brackets. -/
def computedMember (r : Rules) : Reader Unit := do
  expect .openBracket
  discard (within (fun c => { c with inOperator := true, decorator := false }) (r .expression))
  expect .closeBracket

/-- One access after an operand that is no call; `chained` tells whether there was an optional
access before. -/
def memberStep (r : Rules) (chained : Bool) (o : Operand) : Reader (Option Operand) := do
  let t ← token
  let c ← context
  if t.isMark .dot then
    advance
    pointedName
    return some .member
  else if t.isMark .openBracket && !c.decorator then
    computedMember r
    return some .member
  else if t.isMark .bang && (← typed) && !(← onNewLine) then
    advance
    return some (o.noted (.present o.expr))
  else if t.isTemplate then
    faultIf chained
    discard (template r true)
    return some (.other .tagged)
  else if (t.isMark .less || t.isMark .shiftLeft) && (← typed) then
    if (← attempt (operandTypes r)).isSome then
      return some ⟨.other .instantiation, .value, o.wrapsPlace⟩
    else return none
  else return none

/-- An access after a question mark with a point. -/
def optionalStep (r : Rules) : Reader Operand := do
  expect .questionDot
  let t ← token
  if t.isMark .openBracket then
    computedMember r
    return .member
  else if t.isPrivateName || t.word?.isSome then
    advance
    return .member
  else
    if (t.isMark .less || t.isMark .shiftLeft) && (← typed) then discard (attempt (operandTypes r))
    if (← token).isTemplate then
      fault
      discard (template r true)
      return .other .tagged
    else
      arguments r
      return .other .call

/-- Accesses and calls after an operand. -/
def accesses (r : Rules) (first : Operand) : Reader Operand := do
  let (o, chained) ← repeatFrom (first, false) fun (o, chained) => do
    if ← at? .questionDot then return some (← optionalStep r, true)
    else if ← at? .openParen then
      arguments r
      return some (.other .call, chained)
    else
      match ← memberStep r chained o with
      | some o => return some (o, chained)
      | none => return none
  return if chained then .other .optionalChain else o

/-- An instance that is made, from its keyword on. -/
def construction (r : Rules) : Reader Operand := do
  expectWord "new"
  if ← eat .dot then
    expectWord "target"
    return .other .importMeta
  let first ← r .primary
  let callee ← repeatFrom first (memberStep r false)
  require (!callee.isForm .importCall)
  require (!(← at? .questionDot))
  if ← at? .openParen then arguments r
  return .other .construct

/-- The arguments of an import call: one or two. -/
def importArguments (r : Rules) : Reader Unit := do
  expect .openParen
  within (fun c => { c with inOperator := true, decorator := false }) do
    discard (r (.assignment true))
    if (← eat .comma) && !(← at? .closeParen) then
      discard (r (.assignment true))
      discard (eat .comma)
  expect .closeParen

/-- An import call, or what a module knows of itself. -/
def importOperand (r : Rules) : Reader Operand := do
  expectWord "import"
  if ← eat .dot then
    if (← eatWord "defer") || (← eatWord "source") then
      importArguments r
      return .other .importCall
    expectWord "meta"
    return .other .importMeta
  else
    importArguments r
    return .other .importCall

/-- An expression in parentheses. -/
def parenthesized (r : Rules) : Reader Operand := do
  expect .openParen
  let (found, trailing) ← within (fun c => { c with inOperator := true, decorator := false })
    (items .closeParen (r (.assignment true)))
  require (!trailing)
  expect .closeParen
  match found with
  | [] => stop
  | [o] => return o.inParentheses
  | _ => return .value (.parenthesized (.other .sequence))

/-- An operand that starts with a word. -/
def wordOperand (r : Rules) (name : String) : Reader Operand := do
  if name = "this" then
    advanceWord
    return .other .self
  else if name = "null" then
    advanceWord
    return .value .null
  else if name = "true" || name = "false" then
    advanceWord
    return .value (.bool (name = "true"))
  else if name = "function" then
    functionExpression r false
    return .other .function
  else if name = "class" then
    classRest r true
    return .other .classValue
  else if name = "new" then construction r
  else if name = "super" then
    advanceWord
    let t ← token
    faultIf (!(t.isMark .dot || t.isMark .openParen || t.isMark .openBracket))
    return .other .super
  else if name = "import" then importOperand r
  else if ← asyncFunctionAhead then
    advanceWord
    functionExpression r true
    return .other .function
  else
    let c ← context
    require ((← token).isReference c.yields c.awaits)
    advance
    return .name name

/-- An operand without operators. -/
def primaryRule (r : Rules) : Reader Operand := do
  match ← token with
  | .word name _ => wordOperand r name
  | .number x =>
    advance
    return .value (.num x)
  | .bigint =>
    advance
    return .other .bigint
  | .str text _ =>
    advance
    return .value (.str text)
  | .template _ _ => return .value (← template r false)
  | .mark .openBrace => objectLiteral r
  | .mark .openBracket => arrayLiteral r
  | .mark .openParen => parenthesized r
  | .mark .at =>
    discard (decorators r)
    classRest r true
    return .other .classValue
  | .mark .less =>
    require (← markup)
    r .element
    expect .greater
    return .other .markup
  | .mark m =>
    require (m = .slash || m = .slashAssign)
    match cutPattern ((← get).next.start.drop 1) with
    | some rest =>
      moveTo rest
      return .other .pattern
    | none => stop
  | _ => stop

/-- An operand with the accesses and calls after it. -/
def accessRule (r : Rules) : Reader Operand := do
  accesses r (← primaryRule r)

end Reader

end PageIndex.Script
