import PageIndex.Script.Operator

/-!
# Statements

The statements of modules apart from imports and exports. Of these only the declarations of
variables matter for what a module says about values.
-/

namespace PageIndex.Script

namespace Reader

/-- An expression in parentheses after a keyword. -/
def condition (r : Rules) : Reader Unit := do
  expect .openParen
  discard (within (fun c => { c with inOperator := true }) (r .expression))
  expect .closeParen

/-- A statement that belongs to the one before it. -/
def inner (r : Rules) : Reader Unit :=
  discard (r (.statement .single))

/-- A declared variable. Where `checked`, constants and patterns need an initial value. -/
def declarator (r : Rules) (constant checked : Bool) : Reader Declarator := do
  let name ← r .binding
  let definite ← if name.isSome && (← typed) && !(← onNewLine) then eat .bang else pure false
  let isTyped ← typeAfterColon r
  let value ← if ← eat .assign then some <$> (·.expr) <$> r (.assignment true) else pure none
  faultIf (definite && (!isTyped || value.isSome))
  faultIf (checked && value.isNone && !(← context).ambient && (constant || name.isNone))
  return ⟨name, value⟩

/-- Declared variables. -/
def declaratorList (r : Rules) (constant checked : Bool) : Reader (List Declarator) := do
  let first ← declarator r constant checked
  let found ← repeatFrom [first] fun found => do
    if ← eat .comma then return some ((← declarator r constant checked) :: found)
    else return none
  return found.reverse

/-- The declaration of variables from its keyword on. -/
def variableList (r : Rules) : Reader (List Declarator) := do
  let constant := !(← atWord "var") && !(← atWord "let")
  advanceWord
  let found ← within (fun c => { c with inOperator := true }) (declaratorList r constant true)
  semicolon
  return found

/-- Whether a token can start a binding. -/
def startsBinding (t : Token) : Bool :=
  t.isIdentifier || t.isMark .openBrace || t.isMark .openBracket

/-- Whether `let` starts a declaration rather than being a name. -/
def letAhead : Reader Bool := do
  match ← token with
  | .word "let" false => aheadToken fun u _ => startsBinding u
  | _ => return false

/-- Whether `using` starts a declaration, after which a name follows on the same line. -/
def usingAhead : Reader Bool := do
  if ← atWord "using" then aheadToken fun u same => same && u.isIdentifier
  else return false

/-- Whether `await using` starts a declaration. -/
def awaitUsingAhead : Reader Bool := do
  if ← atWord "await" then
    ahead do
      advance
      if ← onNewLine then return false
      usingAhead
  else return false

/-- What a loop goes through, after the target that it sets. -/
def loopSource (r : Rules) (awaits : Bool) : Reader Unit := do
  if ← eatWord "of" then discard (r (.assignment true))
  else
    expectWord "in"
    faultIf awaits
    discard (r .expression)
  expect .closeParen
  inner r

/-- The condition and the step of a loop, after its first semicolon. -/
def loopRest (r : Rules) (awaits : Bool) : Reader Unit := do
  faultIf awaits
  if !(← at? .semicolon) then discard (r .expression)
  expect .semicolon
  if !(← at? .closeParen) then discard (r .expression)
  expect .closeParen
  inner r

/-- Whether a loop goes through something. -/
def loopSourceAhead : Reader Bool := do
  return (← atWord "of") || (← atWord "in")

/-- A loop that declares variables. -/
def declaringLoop (r : Rules) (awaits : Bool) : Reader Unit := do
  let constant := !(← atWord "var") && !(← atWord "let")
  if ← atWord "await" then advanceWord
  advanceWord
  let found ← within (fun c => { c with inOperator := false }) (declaratorList r constant false)
  if ← loopSourceAhead then loopSource r awaits
  else
    faultIf (found.any fun d => d.initial.isNone && (constant || d.name.isNone))
    expect .semicolon
    loopRest r awaits

/-- A loop that starts with an expression. -/
def expressionLoop (r : Rules) (awaits : Bool) : Reader Unit := do
  let ofLet := (← atWord "let") && (← aheadToken fun u _ => u.isWord "of")
  let ofAsync := !awaits && (← atWord "async") && (← aheadToken fun u _ => u.isWord "of")
  let o ← within (fun c => { c with inOperator := false }) (r .expression)
  if ← loopSourceAhead then
    faultIf ((ofLet || ofAsync) && (← atWord "of"))
    target o
    loopSource r awaits
  else
    expect .semicolon
    loopRest r awaits

/-- A loop with a head, from its keyword on. -/
def headedLoop (r : Rules) : Reader Unit := do
  expectWord "for"
  let awaits ← eatWord "await"
  faultIf (awaits && !(← context).awaits)
  expect .openParen
  if ← eat .semicolon then loopRest r awaits
  else if (← atWord "var") || (← atWord "const") || (← letAhead) || (← awaitUsingAhead) then
    declaringLoop r awaits
  else if (← usingAhead) && !(← aheadToken fun u _ => u.isWord "of") then declaringLoop r awaits
  else expressionLoop r awaits

/-- The cases of a choice. -/
def cases (r : Rules) : Reader Unit := do
  expect .openBrace
  discard (untilBrace do
    if !(← eatWord "default") then
      expectWord "case"
      discard (r .expression)
    expect .colon
    repeatFrom () fun _ => do
      if (← atWord "case") || (← atWord "default") || (← at? .closeBrace) then return none
      discard (r (.statement .list))
      return some ())

/-- The handlers of a guarded block. There must be one. -/
def handlers (r : Rules) : Reader Unit := do
  let caught ← eatWord "catch"
  if caught then
    if ← eat .openParen then
      discard (r .binding)
      discard (typeAfterColon r)
      expect .closeParen
    block r
  let finished ← eatWord "finally"
  if finished then block r
  require (caught || finished)

/-- A jump to a label, which is optional. -/
def jump : Reader Unit := do
  advanceWord
  if !(← mayEnd) && (← token).isIdentifier then advance
  semicolon

/-- A statement that starts with a keyword of its own. Returns whether there is one. -/
def keywordStatement (r : Rules) (name : String) : Reader Bool := do
  match name with
  | "if" =>
    advanceWord
    condition r
    inner r
    if ← eatWord "else" then inner r
    return true
  | "while" =>
    advanceWord
    condition r
    inner r
    return true
  | "do" =>
    advanceWord
    inner r
    expectWord "while"
    condition r
    discard (eat .semicolon)
    return true
  | "for" =>
    headedLoop r
    return true
  | "with" =>
    advanceWord
    condition r
    inner r
    return true
  | "switch" =>
    advanceWord
    condition r
    cases r
    return true
  | "try" =>
    advanceWord
    block r
    handlers r
    return true
  | "break" =>
    jump
    return true
  | "continue" =>
    jump
    return true
  | "return" =>
    faultIf (!(← context).returns)
    advanceWord
    if !(← mayEnd) then
      discard (within (fun c => { c with inOperator := true }) (r .expression))
    semicolon
    return true
  | "throw" =>
    advanceWord
    faultIf (← onNewLine)
    discard (within (fun c => { c with inOperator := true }) (r .expression))
    semicolon
    return true
  | "debugger" =>
    advanceWord
    semicolon
    return true
  | _ => return false

/-- A function declaration. -/
def functionDeclaration (r : Rules) (nameless : Bool) (position : Position) : Reader Unit := do
  let isAsync ← eatWord "async"
  expectWord "function"
  let isGenerator ← eat .star
  if (← token).isIdentifier then discard bindingName else faultIf (!nameless)
  faultIf (position ≠ .list && (isAsync || isGenerator))
  let before := (← context).ambient
  discard (functionRest r isAsync isGenerator true .plain)
  faultIf (before && isAsync)

/-- A member of an enumeration. -/
def enumMember (r : Rules) : Reader Unit := do
  match ← token with
  | .word _ _ => advance
  | .str _ _ => advance
  | .mark .openBracket =>
    advance
    match ← token with
    | .str _ _ => advance
    | .template (some _) false => advance
    | _ => stop
    expect .closeBracket
  | _ => stop
  discard (initial r)

/-- An enumeration from its keyword on. -/
def enumeration (r : Rules) : Reader Unit := do
  expectWord "enum"
  discard bindingName
  discard (bracketed .openBrace .closeBrace (enumMember r))

/-- An interface from its keyword on. -/
def interface (r : Rules) : Reader Unit := do
  expectWord "interface"
  discard bindingName
  typeParameters r
  if ← eatWord "extends" then
    namedType r
    repeatFrom () fun _ => do
      if ← eat .comma then
        namedType r
        return some ()
      else return none
  typeMembers r

/-- A name for a type, from its keyword on. -/
def typeAlias (r : Rules) : Reader Unit := do
  expectWord "type"
  discard bindingName
  typeParameters r
  expect .assign
  r .type
  semicolon

/-- The statements of a namespace. -/
def namespaceBody (r : Rules) : Reader Unit :=
  within (fun c => { c with returns := false }) (block r)

/-- A namespace or a module that is declared inside another, from its keyword on. -/
def namespaceRest (r : Rules) : Reader Unit := do
  let isGlobal ← atWord "global"
  advanceWord
  if isGlobal then namespaceBody r
  else
    match ← token with
    | .str _ _ =>
      advance
      if ← at? .openBrace then namespaceBody r else semicolon
    | _ =>
      discard bindingName
      repeatFrom () fun _ => do
        if ← eat .dot then
          discard anyWord
          return some ()
        else return none
      namespaceBody r

/-- An import that is another name for something, from its equals sign on. -/
def importAlias : Reader Unit := do
  expect .assign
  if (← atWord "require") && (← aheadToken fun u _ => u.isMark .openParen) then
    advance
    advance
    match ← token with
    | .str _ _ => advance
    | _ => stop
    expect .closeParen
  else qualifiedName
  semicolon

/-- The modifiers that a declaration may have where types may be written. -/
def declarationModifiers : List String :=
  ["declare", "abstract", "async", "const"]

/-- The words after which a declaration may go on. -/
def declarationWords : List String :=
  ["abstract", "accessor", "async", "declare", "private", "protected", "public", "readonly"]

/-- Whether a declaration that only typed modules have starts. -/
def typedDeclarationAhead : Reader Bool :=
  ahead do
    let joined ← repeatFrom true fun joined => do
      let t ← token
      if joined && declarationWords.any t.isWord then
        advance
        return some (!(← onNewLine))
      else if joined && t.isWord "static" then
        advance
        return some true
      else return none
    if !joined then return false
    let t ← token
    if ["var", "let", "const", "function", "class", "enum"].any t.isWord then return true
    advance
    let u ← token
    let same := !(← onNewLine)
    if t.isWord "interface" || t.isWord "type" then return same && u.isIdentifier
    else if t.isWord "module" || t.isWord "namespace" then
      return same && (u.isIdentifier || u.isString)
    else if t.isWord "global" then
      return u.isIdentifier || u.isMark .openBrace || u.isWord "export"
    else if t.isWord "import" then
      return u.isIdentifier || u.isMark .openBrace || u.isMark .star || u.isString
    else return false

/-- A function in a text that only declares things, which has no body. -/
def bodylessFunction (r : Rules) : Reader Unit := do
  expectWord "function"
  let isGenerator ← eat .star
  discard bindingName
  faultIf isGenerator
  typeParameters r
  discard (parameters r .plain)
  resultAfterColon r
  require (!(← at? .openBrace))
  semicolon

/-- A declaration after its modifiers, as a statement or as what an export declares. -/
def declaration (r : Rules) (found : List String) : Reader (Option (List Declarator)) := do
  let t ← token
  faultIf (found.any fun m => !declarationModifiers.contains m)
  faultIf (found.contains "abstract" && !t.isWord "class")
  faultIf (found.contains "const" && !t.isWord "enum")
  faultIf (found.contains "async" && (!t.isWord "function" || found.contains "declare"))
  within (fun c => { c with ambient := c.ambient || found.contains "declare" }) do
    let isTyped ← typed
    if t.isWord "class" then
      classRest r false
      return none
    else if t.isWord "function" || (← asyncFunctionAhead) then
      if found.contains "declare" then bodylessFunction r
      else if found.contains "async" then
        expectWord "function"
        let isGenerator ← eat .star
        discard bindingName
        discard (functionRest r true isGenerator true .plain)
      else functionDeclaration r false .list
      return none
    else if t.isWord "const" && isTyped && (← aheadToken fun u _ => u.isWord "enum") then
      advanceWord
      enumeration r
      return none
    else if t.isWord "var" || t.isWord "let" || t.isWord "const" then
      return some (← variableList r)
    else if ← usingAhead then return some (← variableList r)
    else if ← awaitUsingAhead then
      advanceWord
      return some (← variableList r)
    else
      require isTyped
      if t.isWord "enum" then enumeration r
      else if t.isWord "interface" then interface r
      else if t.isWord "type" then typeAlias r
      else if t.isWord "import" then
        advanceWord
        if (← atWord "type") && (← aheadToken fun u _ => u.isIdentifier) then advanceWord
        discard bindingName
        importAlias
      else
        require (t.isWord "namespace" || t.isWord "module" || t.isWord "global")
        namespaceRest r
      return none

/-- An expression as a statement, or a statement with a label. -/
def expressionStatement (r : Rules) : Reader Unit := do
  let o ← within (fun c => { c with inOperator := true }) (r .expression)
  let isName := match o.expr with | .reference _ => true | _ => false
  if isName && (← eat .colon) then discard (r (.statement .labelled))
  else semicolon

/-- The words that start a declaration only in typed modules. -/
def typedStarts : List String :=
  ["interface", "type", "module", "namespace", "declare", "enum", "private", "protected", "public",
   "abstract", "accessor", "static", "readonly", "global"]

/-- The statement that declares variables. -/
def declared (found : Option (List Declarator)) : Statement :=
  match found with
  | some l => .declareVariables l
  | none => .other

/-- A statement that is no import or export and starts with a word. -/
def wordStatement (r : Rules) (position : Position) (name : String) : Reader Statement := do
  if ← keywordStatement r name then return .other
  else if name = "function" || (← asyncFunctionAhead) then
    functionDeclaration r false position
    return .other
  else if name = "class" then
    faultIf (position ≠ .list)
    classRest r false
    return .other
  else if name = "const" || (← usingAhead) || (← awaitUsingAhead) || (← letAhead) then
    if name = "let" && position ≠ .list && !(← aheadToken fun u _ => u.isMark .openBracket) then
      expressionStatement r
      return .other
    faultIf (position ≠ .list)
    return declared (← declaration r [])
  else if name = "var" then return .declareVariables (← variableList r)
  else if (← typed) && typedStarts.contains name && (← typedDeclarationAhead) then
    return declared (← declaration r (← modifiers false false))
  else
    expressionStatement r
    return .other

end Reader

end PageIndex.Script
