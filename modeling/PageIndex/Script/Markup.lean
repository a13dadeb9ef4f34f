import PageIndex.Script.Access

/-!
# Markup

Elements in markup, with attributes and children. Names may hold hyphens, text between tags is
not made of tokens, and a closing tag repeats the name of its opening tag.
-/

namespace PageIndex.Script

namespace Reader

/-- One name in markup. -/
def markupWord : Reader (List Char) := do
  match ← token with
  | .word _ false =>
    let start := (← get).next.start
    moveTo (start.dropWhile inMarkupName)
    return start.takeWhile inMarkupName
  | _ => stop

/-- The name of a tag: a name, two with a colon, or several with points. -/
def tagName : Reader (List (List Char)) := do
  let first ← markupWord
  if ← eat .colon then return [first, [':'], ← markupWord]
  else
    let found ← repeatFrom [first] fun found => do
      if ← eat .dot then return some ((← markupWord) :: found)
      else return none
    return found.reverse

/-- An expression in braces, up to the closing one, which is left. -/
def braced (r : Rules) : Reader Unit := do
  let o ← within (fun c => { c with inOperator := true, decorator := false }) (r .expression)
  faultIf (o.isForm .sequence)
  require (← at? .closeBrace)

/-- The value of an attribute, from its equals sign on. -/
def attributeValue (r : Rules) : Reader Unit := do
  match (← get).next.rest with
  | '\x22' :: text => quoted '\x22' text
  | '\'' :: text => quoted '\'' text
  | _ =>
    advance
    match ← token with
    | .str _ _ => advance
    | .mark .openBrace =>
      advance
      braced r
      advance
    | .mark .less =>
      r .element
      advance
    | _ => stop
where
  /-- A quoted text without escapes. -/
  quoted (mark : Char) (text : List Char) : Reader Unit :=
    match skipMarkupString mark text with
    | some rest => moveTo rest
    | none => stop

/-- The attributes of a tag. -/
def attributes (r : Rules) : Reader Unit :=
  repeatFrom () fun _ => do
    let t ← token
    if t.isMark .greater || t.isMark .slash then return none
    else if ← eat .openBrace then
      expect .ellipsis
      discard (within (fun c => { c with inOperator := true, decorator := false }) (r .expression))
      expect .closeBrace
      return some ()
    else
      discard markupWord
      if ← eat .colon then discard markupWord
      if ← at? .assign then attributeValue r
      return some ()

/-- The children of an element, from the closing angle of its opening tag up to the opening angle
of its closing tag. -/
def children (r : Rules) : Reader Unit :=
  repeatFrom () fun _ => do
    match skipMarkupText (← get).next.rest with
    | none => stop
    | some rest =>
      moveTo rest
      if ← eat .openBrace then
        if !(← at? .closeBrace) then
          discard (eat .ellipsis)
          braced r
        return some ()
      else if ← at? .less then
        if ← aheadToken fun u _ => u.isMark .slash then return none
        r .element
        return some ()
      else stop

/-- A closing tag up to its closing angle. -/
def closingTag (name : List (List Char)) : Reader Unit := do
  expect .less
  expect .slash
  let found ← if ← at? .greater then pure [] else tagName
  require (found = name)
  require (← at? .greater)

/-- An element or a group of elements without a tag, up to its closing angle. -/
def elementRule (r : Rules) : Reader Unit := do
  expect .less
  if ← at? .greater then
    children r
    closingTag []
  else
    let name ← tagName
    if ← typed then typeArguments r
    attributes r
    if ← eat .slash then require (← at? .greater)
    else
      require (← at? .greater)
      children r
      closingTag name

end Reader

end PageIndex.Script
