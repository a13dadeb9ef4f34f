import PageIndex.Script.Parameter

/-!
# Types

Types are read and leave no trace. What may be a type decides how far a declaration or an
expression reaches, and a wrong type makes the module wrong.
-/

namespace PageIndex.Script

/-- The words that name types of their own. -/
def typeWords : List String :=
  ["any", "unknown", "string", "number", "bigint", "symbol", "boolean", "undefined", "never",
   "object", "null", "void", "intrinsic"]

/-- Whether a token is a literal number. -/
def Token.isNumeral : Token → Bool
  | .number _ => true
  | .bigint => true
  | _ => false

/-- Whether a token can start a type, wherever it stands. -/
def Token.startsType (t : Token) : Bool :=
  match t with
  | .str _ _ => true
  | .number _ => true
  | .bigint => true
  | .template _ _ => true
  | .word name _ =>
    t.isIdentifier ||
      ["void", "null", "this", "typeof", "new", "true", "false", "import", "function"].contains name
  | .mark m =>
    [Mark.openBrace, .openBracket, .less, .bar, .ampersand, .star, .question, .bang,
     .ellipsis].contains m
  | _ => false

namespace Reader

/-- Types in angles after a name on the same line. -/
def typeArguments (r : Rules) : Reader Unit := do
  if !(← onNewLine) then
    recut fun l => if l.token.isMark .shiftLeft then l.asOpenAngle else l
    if ← eat .less then
      let (found, _) ← items .greater (r .type)
      faultIf found.isEmpty
      expect .greater

/-- The parameters of a generic declaration, if there are any. -/
def typeParameters (r : Rules) : Reader Unit := do
  if (← typed) && (← eat .less) then
    let (found, _) ← items .greater do
      let found ← modifiers true false
      faultIf (found.any fun m => !(["const", "in", "out"].contains m))
      discard bindingName
      if ← eatWord "extends" then r .type
      if ← eat .assign then r .type
    faultIf found.isEmpty
    expect .greater

/-- The result of a function: a type, or a statement about a parameter. -/
def resultType (r : Rules) : Reader Unit := do
  discard (attempt do
    discard anyWord
    require ((← atWord "is") && !(← onNewLine))
    advanceWord)
  r .type

/-- The result of a function after a colon, if it is given. -/
def resultAfterColon (r : Rules) : Reader Unit := do
  if (← typed) && (← eat .colon) then resultType r

/-- Whether a parameter could start here. Moves past its first part. -/
def skipParameterStart (r : Rules) : Reader Bool := do
  discard (modifiers false false)
  let t ← token
  if t.isIdentifier || t.isWord "this" then
    advance
    return true
  else if t.isMark .openBrace || t.isMark .openBracket then
    let clean := !(← get).faulty
    discard (r .binding)
    return clean && !(← get).faulty
  else return false

/-- Whether parentheses hold parameters rather than a type. -/
def functionTypeAhead (r : Rules) : Reader Bool :=
  ahead do
    advance
    if (← at? .closeParen) || (← at? .ellipsis) then return true
    if ← skipParameterStart r then
      let t ← token
      if t.isMark .colon || t.isMark .comma || t.isMark .question || t.isMark .assign then
        return true
      if ← eat .closeParen then return ← at? .arrow
    return false

/-- Whether the type of a function or a constructor follows. -/
def callableTypeAhead (r : Rules) : Reader Bool := do
  let t ← token
  if t.isMark .less || t.isWord "new" then return true
  else if t.isMark .openParen then functionTypeAhead r
  else if t.isWord "abstract" then aheadToken fun u _ => u.isWord "new"
  else return false

/-- The type of a function or a constructor. -/
def callableType (r : Rules) : Reader Unit := do
  discard (eatWord "abstract")
  discard (eatWord "new")
  typeParameters r
  discard (parameters r .plain)
  expect .arrow
  resultType r

/-- A name with its qualifiers. -/
def qualifiedName : Reader Unit := do
  discard anyWord
  repeatFrom () fun _ => do
    if ← eat .dot then
      discard anyWord
      return some ()
    else return none

/-- The end of a member of a type. -/
def memberEnd : Reader Unit := do
  if !(← eat .comma) then semicolon

/-- The type parameters, parameters and result of a member that is called. -/
def callSignature (r : Rules) : Reader Unit := do
  typeParameters r
  discard (parameters r .plain)
  resultAfterColon r

/-- Whether the brackets of an index signature follow. -/
def indexSignatureAhead : Reader Bool :=
  ahead do
    expect .openBracket
    let t ← token
    if t.isMark .ellipsis || t.isMark .closeBracket then return true
    advance
    if t.isModifier && (← token).isIdentifier then return true
    if !t.isIdentifier then return false
    if (← at? .colon) || (← at? .comma) then return true
    if ← eat .question then
      return (← at? .colon) || (← at? .comma) || (← at? .closeBracket)
    return false

/-- An index signature: the type of all members. -/
def indexSignature (r : Rules) : Reader Unit := do
  expect .openBracket
  let (found, _) ← items .closeBracket do
    discard anyWord
    require (← typeAfterColon r)
  faultIf (found.length ≠ 1)
  expect .closeBracket
  require (← typeAfterColon r)
  memberEnd

/-- A member of an object type or an interface. -/
def typeMember (r : Rules) : Reader Unit := do
  let t ← token
  if t.isMark .openParen || t.isMark .less then
    callSignature r
    memberEnd
  else if t.isWord "new" && (← aheadToken fun u _ => u.isMark .openParen || u.isMark .less) then
    advanceWord
    callSignature r
    memberEnd
  else
    let found ← modifiers false false
    faultIf (found.any (· ≠ "readonly"))
    if (← eatAccessor "get") || (← eatAccessor "set") then
      discard (propertyName r)
      callSignature r
      memberEnd
    else if (← at? .openBracket) && (← indexSignatureAhead) then indexSignature r
    else
      discard (propertyName r)
      discard (eat .question)
      if (← at? .openParen) || (← at? .less) then callSignature r
      else discard (typeAfterColon r)
      memberEnd

/-- The members of an object type or an interface, in braces. -/
def typeMembers (r : Rules) : Reader Unit := do
  expect .openBrace
  discard (untilBrace (typeMember r))

/-- Whether braces hold a mapped type. -/
def mappedTypeAhead : Reader Bool :=
  ahead do
    expect .openBrace
    if (← eat .plus) || (← eat .minus) then return ← atWord "readonly"
    discard (eatWord "readonly")
    expect .openBracket
    discard anyWord
    atWord "in"

/-- A mapped type: one member for each of a set of names. -/
def mappedType (r : Rules) : Reader Unit := do
  expect .openBrace
  if (← eat .plus) || (← eat .minus) then expectWord "readonly"
  else discard (eatWord "readonly")
  expect .openBracket
  discard anyWord
  expectWord "in"
  r .type
  if ← eatWord "as" then r .type
  expect .closeBracket
  if (← eat .plus) || (← eat .minus) then expect .question
  else discard (eat .question)
  if ← eat .colon then r .type
  discard (eat .semicolon)
  expect .closeBrace

/-- An item of a tuple type, with or without a name. -/
def tupleItem (r : Rules) : Reader Unit := do
  let named ← ahead do
    discard (eat .ellipsis)
    discard anyWord
    discard (eat .question)
    at? .colon
  discard (eat .ellipsis)
  if named then
    discard anyWord
    discard (eat .question)
    expect .colon
    discard (eat .ellipsis)
  r .type

/-- A template with types in it, from its first piece on. -/
def templateType (r : Rules) : Reader Unit :=
  repeatFrom () fun _ => do
    match ← token with
    | .template text true =>
      faultIf text.isNone
      advance
      r .type
      recut Lexeme.asTemplate
      require (← token).isTemplate
      return some ()
    | .template text false =>
      faultIf text.isNone
      advance
      return none
    | _ => return none

/-- The type of a module. -/
def importType (r : Rules) : Reader Unit := do
  expectWord "import"
  expect .openParen
  r .type
  if ← eat .comma then
    require (← at? .openBrace)
    discard (r .primary)
  expect .closeParen
  if ← eat .dot then qualifiedName
  typeArguments r

/-- The type of a value that is named. -/
def queriedType (r : Rules) : Reader Unit := do
  expectWord "typeof"
  if ← atWord "import" then importType r
  else
    qualifiedName
    typeArguments r

/-- The type that has a name. -/
def namedType (r : Rules) : Reader Unit := do
  qualifiedName
  typeArguments r

/-- A type without operators after it. -/
def primaryType (r : Rules) : Reader Unit := do
  match ← token with
  | .str _ _ => advance
  | .number _ => advance
  | .bigint => advance
  | .template _ _ => templateType r
  | .mark .minus =>
    advance
    require (← token).isNumeral
    advance
  | .mark .openBrace => if ← mappedTypeAhead then mappedType r else typeMembers r
  | .mark .openBracket => discard (bracketed .openBracket .closeBracket (tupleItem r))
  | .mark .openParen =>
    advance
    r .type
    expect .closeParen
  | .mark .question =>
    advance
    let t ← token
    let alone := [Mark.comma, .closeBrace, .closeParen, .greater, .assign, .bar].any t.isMark
    if !alone then r .type
  | .mark .bang =>
    advance
    r .type
  | .word name _ =>
    if name = "this" then
      advanceWord
      if (← atWord "is") && !(← onNewLine) then
        advanceWord
        r .type
    else if name = "typeof" then queriedType r
    else if name = "import" then importType r
    else if name = "true" || name = "false" then advanceWord
    else if typeWords.contains name && !(← aheadToken fun u _ => u.isMark .dot) then advanceWord
    else if name = "asserts" &&
        (← aheadToken fun u same => same && (u.isIdentifier || u.isWord "this")) then
      advanceWord
      advance
      if ← eatWord "is" then r .type
    else namedType r
  | _ => stop

/-- A type with brackets and marks after it. -/
def postfixType (r : Rules) : Reader Unit := do
  primaryType r
  repeatFrom () fun _ => do
    if ← onNewLine then return none
    else if ← eat .bang then return some ()
    else if ← at? .question then
      if ← aheadToken fun u _ => u.startsType || u.isMark .openParen || u.isMark .minus then
        return none
      advance
      return some ()
    else if ← eat .openBracket then
      if !(← at? .closeBracket) then r .type
      expect .closeBracket
      return some ()
    else return none

/-- A place for a type that is found out. -/
def inferredType (r : Rules) : Reader Unit := do
  expectWord "infer"
  discard bindingName
  discard (attempt do
    expectWord "extends"
    within (fun c => { c with plainTypes := true }) (r .type)
    require ((← context).plainTypes || !(← at? .question)))

/-- A type with operators in front of it. -/
def operatorType (r : Rules) : Reader Unit := do
  repeatFrom () fun _ => do
    let t ← token
    if t.isWord "keyof" || t.isWord "unique" || t.isWord "readonly" then
      advanceWord
      return some ()
    else return none
  if ← atWord "infer" then inferredType r
  else within (fun c => { c with plainTypes := false }) (postfixType r)

/-- Types joined by a mark, which may also stand in front of the first one. -/
def joinedTypes (m : Mark) (part : Reader Unit) : Reader Unit := do
  discard (eat m)
  part
  repeatFrom () fun _ => do
    if ← eat m then
      part
      return some ()
    else return none

/-- A type. -/
def typeRule (r : Rules) : Reader Unit := do
  if ← callableTypeAhead r then callableType r
  else
    joinedTypes .bar (joinedTypes .ampersand (operatorType r))
    let c ← context
    if !c.plainTypes && !(← onNewLine) && (← eatWord "extends") then
      within (fun c => { c with plainTypes := true }) (r .type)
      expect .question
      within (fun c => { c with plainTypes := false }) (r .type)
      expect .colon
      within (fun c => { c with plainTypes := false }) (r .type)

end Reader

end PageIndex.Script
