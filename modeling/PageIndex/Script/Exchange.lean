import PageIndex.Script.Statement

/-!
# Imports and exports

The statements by which modules give values to one another.
-/

namespace PageIndex.Script

/-- A name in a list of imports or exports. Strings may be names there. -/
structure ExchangedName where
  text : String
  quoted : Bool
deriving DecidableEq, Repr

namespace Reader

/-- A name in a list of imports or exports. -/
def exchangedName : Reader ExchangedName := do
  match ← token with
  | .word name _ =>
    advance
    return ⟨name, false⟩
  | .str text wellFormed =>
    faultIf (!wellFormed)
    advance
    return ⟨text, true⟩
  | _ => stop

/-- Whether the next token may be a name in a list of imports or exports. -/
def exchangedNameAhead : Reader Bool := do
  match ← token with
  | .word _ _ => return true
  | .str _ _ => return true
  | _ => return false

/-- A name in a list, with the name that it gets if that is another one. The word `type` in front
says that only a type is meant, unless `type` is the name. -/
def exchangedPair : Reader (ExchangedName × Option ExchangedName) := do
  let first ← exchangedName
  if (← typed) && first = ⟨"type", false⟩ then
    if ← eatWord "as" then
      if ← eatWord "as" then
        if ← exchangedNameAhead then return (⟨"as", false⟩, some (← exchangedName))
        else return (first, some ⟨"as", false⟩)
      else if ← exchangedNameAhead then return (first, some (← exchangedName))
      else return (⟨"as", false⟩, none)
    else if ← exchangedNameAhead then
      let name ← exchangedName
      if ← eatWord "as" then return (name, some (← exchangedName)) else return (name, none)
    else return (first, none)
  else if ← eatWord "as" then return (first, some (← exchangedName))
  else return (first, none)

/-- The module that a list of imports or exports speaks of. -/
def sourceText : Reader String := do
  match ← token with
  | .str text _ =>
    advance
    return text
  | _ => stop

/-- The attributes of an import. -/
def importAttributes : Reader Unit := do
  if (← atWord "with") || ((← atWord "assert") && !(← onNewLine)) then
    advanceWord
    discard (bracketed .openBrace .closeBrace do
      discard exchangedName
      expect .colon
      discard sourceText)

/-- The module that an import or export speaks of, up to the end of the statement. -/
def fromSource : Reader String := do
  expectWord "from"
  let source ← sourceText
  importAttributes
  semicolon
  return source

/-- Refuses a name that no import can bind. -/
def boundName (n : ExchangedName) : Reader String := do
  require (!n.quoted && !Words.isReserved n.text)
  faultIf (n.text = "await" && (← context).awaits)
  return n.text

/-- A name in a list of imports. -/
def importedName : Reader ImportName := do
  let (exported, bound) ← exchangedPair
  return .named exported.text (← boundName (bound.getD exported))

/-- What an import binds after its default name: a list of names, or the whole module. -/
def importedNames : Reader (List ImportName) := do
  if ← eat .star then
    expectWord "as"
    return [.whole (← bindingName)]
  else bracketed .openBrace .closeBrace importedName

/-- The words between `import` and the names. -/
structure ImportHead where
  onlyTypes : Bool
  default : Option String

/-- The default name of an import, and the words in front of the names. Each such word may also be
the default name itself. -/
def importHead : Reader ImportHead := do
  if !(← token).isIdentifier then return ⟨false, none⟩
  let name ← bindingName
  let t ← token
  let fromNext ← aheadToken fun u _ => u.isWord "from"
  if name = "type" && (← typed) then
    let aliasNext ← aheadToken fun u _ => u.isMark .assign
    if t.isMark .star || t.isMark .openBrace then return ⟨true, none⟩
    if t.isIdentifier && (!t.isWord "from" || fromNext || aliasNext) then
      return ⟨true, some (← bindingName)⟩
  if name = "defer" && t.isMark .star then return ⟨false, none⟩
  if name = "source" && t.isIdentifier && (!t.isWord "from" || fromNext) then
    return ⟨false, some (← bindingName)⟩
  return ⟨false, some name⟩

/-- An import. -/
def importRule : Reader Statement := do
  expectWord "import"
  match ← token with
  | .str source _ =>
    advance
    importAttributes
    semicolon
    return .importFrom source []
  | _ =>
    let head ← importHead
    match head.default with
    | some name =>
      if (← typed) && (← at? .assign) then
        importAlias
        return .other
      if ← eat .comma then
        faultIf head.onlyTypes
        let names ← importedNames
        return .importFrom (← fromSource) (.default name :: names)
      else return .importFrom (← fromSource) [.default name]
    | none =>
      let names ← importedNames
      return .importFrom (← fromSource) names

/-- A name in a list of exports. Without a source it must be one that a variable can have. -/
def exportedName (local? : Bool) (pair : ExchangedName × Option ExchangedName) :
    Reader ExportName := do
  let (inner, outer) := pair
  faultIf (local? &&
    (inner.quoted || Words.isReserved inner.text || Words.future.contains inner.text))
  return ⟨inner.text, (outer.getD inner).text⟩

/-- A list of exports from its opening brace on. -/
def exportList : Reader Statement := do
  let pairs ← bracketed .openBrace .closeBrace exchangedPair
  if ← atWord "from" then
    let names ← pairs.mapM (exportedName false)
    return .exportNames (some (← fromSource)) names
  else
    let names ← pairs.mapM (exportedName true)
    semicolon
    return .exportNames none names

/-- An export of everything from its star on. -/
def exportEverything : Reader Statement := do
  expect .star
  let gathered ← eatWord "as"
  if gathered then discard exchangedName
  return .exportAll (← fromSource) gathered

/-- A default export from its keyword on. -/
def exportDefaultRest (r : Rules) : Reader Statement := do
  expectWord "default"
  let t ← token
  let isTyped ← typed
  if t.isWord "class" then
    classRest r true
    return .exportDefault none
  else if t.isMark .at then
    discard (decorators r)
    if isTyped then discard (eatWord "abstract")
    classRest r true
    return .exportDefault none
  else if isTyped && t.isWord "abstract" &&
      (← aheadToken fun u same => same && u.isWord "class") then
    advanceWord
    classRest r true
    return .exportDefault none
  else if isTyped && t.isWord "interface" &&
      (← aheadToken fun u same => same && u.isIdentifier) then
    interface r
    return .exportDefault none
  else if t.isWord "function" || (← asyncFunctionAhead) then
    functionDeclaration r true .list
    return .exportDefault none
  else
    let o ← within (fun c => { c with inOperator := true }) (r (.assignment true))
    semicolon
    return .exportDefault (some o.expr)

/-- An export that declares something. -/
def exportDeclaration (r : Rules) : Reader Statement := do
  let decorated ← decorators r
  let found ← if ← typed then modifiers false false else pure []
  if decorated then require (← atWord "class")
  faultIf ((← usingAhead) || (← awaitUsingAhead))
  match ← declaration r found with
  | some l => return .exportVariables l
  | none => return .other

/-- An export. -/
def exportRule (r : Rules) : Reader Statement := do
  expectWord "export"
  let t ← token
  let isTyped ← typed
  if isTyped && t.isMark .assign then
    advance
    discard (within (fun c => { c with inOperator := true }) (r .expression))
    semicolon
    return .other
  else if isTyped && t.isWord "as" && (← aheadToken fun u _ => u.isWord "namespace") then
    advanceWord
    advanceWord
    discard bindingName
    semicolon
    return .other
  else if t.isWord "default" then exportDefaultRest r
  else if t.isMark .star then exportEverything
  else if t.isMark .openBrace then exportList
  else if isTyped && t.isWord "type" && (← aheadToken fun u _ => u.isMark .openBrace) then
    advanceWord
    exportList
  else if isTyped && t.isWord "type" && (← aheadToken fun u _ => u.isMark .star) then
    advanceWord
    exportEverything
  else exportDeclaration r

/-- Whether a class follows, which may be exported. -/
def classAhead : Reader Bool :=
  ahead do
    if ← eatWord "export" then discard (eatWord "default")
    if ← typed then
      discard (eatWord "declare")
      discard (eatWord "abstract")
    atWord "class"

/-- A class with decorators in front of it, which may be exported. -/
def decoratedRule (r : Rules) : Reader Statement := do
  discard (decorators r)
  require (← classAhead)
  if ← atWord "export" then exportRule r
  else
    if ← typed then
      discard (eatWord "declare")
      discard (eatWord "abstract")
    classRest r false
    return .other

/-- A statement. -/
def statementRule (r : Rules) (position : Position) : Reader Statement := do
  match ← token with
  | .word name _ =>
    if name = "import" && !(← aheadToken fun u _ => u.isMark .dot || u.isMark .openParen) then
      importRule
    else if name = "export" then exportRule r
    else wordStatement r position name
  | .mark .openBrace =>
    block r
    return .other
  | .mark .semicolon =>
    advance
    return .other
  | .mark .at => decoratedRule r
  | _ =>
    expressionStatement r
    return .other

end Reader

end PageIndex.Script
