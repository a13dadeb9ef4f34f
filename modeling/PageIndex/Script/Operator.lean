import PageIndex.Script.Access

/-!
# Operators

Expressions made of operands and operators, from the tightest to the loosest.
-/

namespace PageIndex.Script

/-- The level of the operators that compare. -/
def compareLevel : Nat :=
  8

/-- The level of the power operator, the only one that groups from the right. -/
def powerLevel : Nat :=
  12

/-- The form of an expression with an operator between two operands. -/
def Token.joinedForm (t : Token) : Form :=
  match t with
  | .mark .coalesce => .coalesce
  | .mark .logicalOr => .logical
  | .mark .logicalAnd => .logical
  | _ => .binary

/-- Whether a token assigns. -/
def Token.assigns : Token → Bool
  | .mark m =>
    [Mark.assign, .plusAssign, .minusAssign, .starAssign, .slashAssign, .percentAssign,
     .powerAssign, .shiftLeftAssign, .shiftRightAssign, .shiftRightZeroAssign, .andAssign,
     .orAssign, .caretAssign, .logicalAndAssign, .logicalOrAssign, .coalesceAssign].contains m
  | _ => false

namespace Operand

/-- Whether an operator in front of the operand keeps it from being raised to a power. -/
def isPrefixed (o : Operand) : Bool :=
  match o.expr with
  | .negative _ => true
  | .other .prefixed => true
  | .other .awaited => true
  | _ => false

/-- Whether joining would mix the operator for absent values with the logical ones. -/
def mixes (form : Form) (left right : Operand) : Bool :=
  match form with
  | .coalesce => left.isForm .logical || right.isForm .logical
  | .logical => left.isForm .coalesce || right.isForm .coalesce
  | _ => false

end Operand

namespace Reader

/-- Refuses an operand that is no simple place. -/
def simpleTarget (o : Operand) : Reader Unit :=
  faultIf (o.place ≠ .simple)

/-- Turns an operand into the target of an assignment. Initial values in it are right now. -/
def target (o : Operand) : Reader Unit := do
  match o.asTarget? with
  | some n => modify fun c => { c with pending := c.pending - n }
  | none => fault

/-- Whether the next word is `name` with an operand after it on the same line. -/
def operandAhead (name : String) : Reader Bool := do
  if ← atWord name then
    aheadToken fun u same =>
      same && (u.word?.isSome || u.isNumeral || u.isString)
  else return false

/-- Whether an operand that is waited for follows. -/
def awaitAhead : Reader Bool := do
  if ← atWord "await" then
    if (← context).awaits then return true else operandAhead "await"
  else return false

/-- An operand with the operators in front of it. -/
def unaryRule (r : Rules) : Reader Operand := do
  let t ← token
  if t.isMark .increment || t.isMark .decrement then
    advance
    simpleTarget (← r .unary)
    return .other .update
  else if t.isMark .minus then
    advance
    return .value (.negative (← r .unary).expr)
  else if t.isMark .plus || t.isMark .bang || t.isMark .tilde then
    advance
    discard (r .unary)
    return .other .prefixed
  else if t.isWord "typeof" || t.isWord "void" || t.isWord "delete" then
    advanceWord
    discard (r .unary)
    return .other .prefixed
  else if t.isMark .less && !(← markup) then
    require (← typed)
    advance
    r .type
    expect .greater
    return (← r .unary).noted (.other .assertion)
  else if t.isMark .less then primaryRule r
  else if ← awaitAhead then
    faultIf (!(← context).awaits)
    advanceWord
    discard (within (fun c => { c with awaits := true }) (r .unary))
    return .other .awaited
  else
    let o ← r .access
    let t ← token
    if (t.isMark .increment || t.isMark .decrement) && !(← onNewLine) then
      simpleTarget o
      advance
      return .other .update
    else return o

/-- The first operand of a chain of operators, or the name of a private member that is looked
for. -/
def firstOperand (r : Rules) (level : Nat) : Reader Operand := do
  if (← token).isPrivateName then
    require ((← context).inOperator && level < compareLevel)
    advance
    expectWord "in"
    discard (r (.binary compareLevel))
    return .other .binary
  else r .unary

/-- One operator that binds more tightly than `level`, and the operand after it. -/
def operatorStep (r : Rules) (level : Nat) (left : Operand) : Reader (Option Operand) := do
  recut fun l => if l.token.isMark .greater then l.asOperator else l
  let t ← token
  match t.level? with
  | none => return none
  | some n =>
    let stops := if n = powerLevel then n < level else n ≤ level
    if stops || (t.isWord "in" && !(← context).inOperator) then return none
    else if t.isWord "as" || t.isWord "satisfies" then
      if !(← typed) || (← onNewLine) then return none
      advanceWord
      r .type
      return some (left.noted (if t.isWord "as" then .cast left.expr else .satisfying left.expr))
    else
      advanceWord
      let right ← r (.binary n)
      let form := t.joinedForm
      faultIf (Operand.mixes form left right || (n = powerLevel && left.isPrefixed))
      return some (.other form)

/-- Operands joined by operators that bind more tightly than `level`. -/
def binaryRule (r : Rules) (level : Nat) : Reader Operand := do
  repeatFrom (← firstOperand r level) (operatorStep r level)

/-- The body of an arrow function. -/
def arrowBody (r : Rules) (isAsync returnType : Bool) : Reader Unit :=
  within (fun c => { c with awaits := isAsync, yields := false }) do
    if ← at? .openBrace then functionBody r else discard (r (.assignment returnType))

/-- The arrow and the body after a parameter that stands alone. -/
def simpleArrow (r : Rules) (isAsync returnType : Bool) : Reader Operand := do
  faultIf (← onNewLine)
  expect .arrow
  arrowBody r isAsync returnType
  return .other .arrow

/-- What is known of the start of an arrow function. -/
structure ArrowHead where
  isAsync : Bool
  hasResult : Bool

/-- An arrow function up to its arrow. -/
def arrowHead (r : Rules) : Reader ArrowHead := do
  let isAsync ← eatWord "async"
  let head ← within (fun c => { c with awaits := c.awaits || isAsync }) do
    typeParameters r
    faultIf (← parameters r .plain).hasSelf
    let hasResult := (← typed) && (← at? .colon)
    resultAfterColon r
    return ⟨isAsync, hasResult⟩
  faultIf (← onNewLine)
  expect .arrow
  return head

/-- How sure it is that an arrow function starts. -/
inductive Likelihood where
  | no
  | maybe
  | yes

/-- What a parenthesis with a name after it starts. -/
def likelihoodAfterName : Reader Likelihood := do
  advance
  let t ← token
  if t.isMark .colon then return .yes
  else if t.isMark .question then
    advance
    let u ← token
    return if [Mark.colon, .comma, .assign, .closeParen].any u.isMark then .yes else .no
  else if t.isMark .comma || t.isMark .assign || t.isMark .closeParen then return .maybe
  else return .no

/-- What a parenthesis starts, seen from after it. -/
def likelihoodAfterParen : Reader Likelihood := do
  let t ← token
  if t.isMark .closeParen then
    advance
    let u ← token
    return if [Mark.arrow, .colon, .openBrace].any u.isMark then .yes else .no
  else if t.isMark .openBracket || t.isMark .openBrace then return .maybe
  else if t.isMark .ellipsis then
    advance
    let u ← token
    if u.isMark .openBracket || u.isMark .openBrace then return .maybe
    return if u.isIdentifier || u.isWord "this" then .yes else .no
  else if t.isModifier && !t.isWord "async" && (← aheadToken fun u _ => u.isIdentifier) then
    return if ← aheadToken fun u _ => u.isWord "as" then .no else .yes
  else if t.isIdentifier || t.isWord "this" then likelihoodAfterName
  else return .no

/-- What an angle starts, seen from after it. Where markup may be written only a constraint or a
comma tells type parameters from an element. -/
def likelihoodAfterAngle : Reader Likelihood := do
  let t ← token
  if !t.isIdentifier && !t.isWord "const" then return .no
  if ← markup then
    discard (eatWord "const")
    advance
    if ← eatWord "extends" then
      let u ← token
      return if [Mark.assign, .greater, .slash].any u.isMark then .no else .yes
    else
      let u ← token
      return if u.isMark .comma || u.isMark .assign then .yes else .no
  else return .maybe

/-- Whether an arrow function with parentheses starts. -/
def arrowLikelihood : Reader Likelihood :=
  fun c =>
    let guess : Reader Likelihood := do
      if ← eatWord "async" then
        if ← onNewLine then return .no
      if ← eat .openParen then likelihoodAfterParen
      else if (← typed) && (← eat .less) then likelihoodAfterAngle
      else return .no
    match guess c with
    | some (l, _) => some (l, c)
    | none => some (.no, c)

/-- Reads an arrow function with parentheses if there is one. Once its arrow is found the body
belongs to it, but in the middle of a conditional expression a return type must leave a colon
for that expression. -/
def arrow? (r : Rules) (returnType : Bool) : Reader (Option Operand) := do
  match ← arrowLikelihood with
  | .no => return none
  | .yes =>
    let head ← arrowHead r
    arrowBody r head.isAsync true
    return some (.other .arrow)
  | .maybe =>
    let start ← get
    match ← attempt (arrowHead r) with
    | none => return none
    | some head =>
      arrowBody r head.isAsync returnType
      if !returnType && head.hasResult && !(← at? .colon) then
        set start
        return none
      else return some (.other .arrow)

/-- Whether an asynchronous arrow function with one bare parameter starts. -/
def asyncArrowAhead : Reader Bool := do
  if ← atWord "async" then
    ahead do
      advance
      if (← onNewLine) || !(← token).isIdentifier then return false
      advance
      return (← at? .arrow) && !(← onNewLine)
  else return false

/-- The operand of `yield`. -/
def yielded (r : Rules) : Reader Operand := do
  faultIf (!(← context).yields)
  advanceWord
  if !(← onNewLine) then
    let isDelegate ← eat .star
    let t ← token
    let ends := t == .eof || t.isWord "in" ||
      [Mark.semicolon, .closeBrace, .closeParen, .closeBracket, .colon, .comma].any t.isMark
    if isDelegate || !ends then
      discard (within (fun c => { c with yields := true }) (r (.assignment true)))
  return .other .yielded

/-- Whether an operand of `yield` follows. -/
def yieldAhead : Reader Bool := do
  if ← atWord "yield" then
    if (← context).yields then return true else operandAhead "yield"
  else return false

/-- A value that is assigned to the operand before it, with the operator. -/
def assignmentRest (r : Rules) (returnType : Bool) (left : Operand) : Reader Operand := do
  if ← at? .assign then
    target left
    advance
    discard (r (.assignment returnType))
    return ⟨.other .assignment, .filled, false⟩
  else
    simpleTarget left
    advance
    discard (r (.assignment returnType))
    return .other .assignment

/-- The two sides of a condition, after the question mark. -/
def conditionalRest (r : Rules) (returnType : Bool) : Reader Operand := do
  discard (within (fun c => { c with inOperator := true }) (r (.assignment false)))
  expect .colon
  discard (r (.assignment returnType))
  return .other .conditional

/-- An expression without commas. -/
def assignmentRule (r : Rules) (returnType : Bool) : Reader Operand := do
  if ← yieldAhead then return ← yielded r
  if let some o ← arrow? r returnType then return o
  if ← asyncArrowAhead then
    advanceWord
    advance
    return ← simpleArrow r true returnType
  let left ← r (.binary 0)
  let t ← token
  let isName := match left.expr with | .reference _ => true | _ => false
  if isName && t.isMark .arrow then simpleArrow r false returnType
  else if t.assigns then assignmentRest r returnType left
  else if ← eat .question then conditionalRest r returnType
  else return left

/-- An expression. -/
def expressionRule (r : Rules) : Reader Operand :=
  within (fun c => { c with decorator := false }) do
    let first ← r (.assignment true)
    if ← at? .comma then
      repeatFrom () fun _ => do
        if ← eat .comma then
          discard (r (.assignment true))
          return some ()
        else return none
      return .other .sequence
    else return first

end Reader

end PageIndex.Script
