import PageIndex.Script.Exchange
import PageIndex.Script.Markup

/-!
# Reading modules

The grammar tied together, and the module that a text stands for. A text that breaks any rule of
the grammar stands for no module.
-/

namespace PageIndex.Script

/-- The readers of all parts of the grammar, for texts whose parts are inside one another at most
`depth` times. -/
def rules : Nat → Rules
  | 0, _, _ => Reader.stop
  | depth + 1, _, goal =>
    let r : Rules := rules depth
    match goal with
    | .type => Reader.typeRule r
    | .binding => Reader.bindingRule r
    | .assignment returnType => Reader.assignmentRule r returnType
    | .expression => Reader.expressionRule r
    | .binary level => Reader.binaryRule r level
    | .unary => Reader.unaryRule r
    | .access => Reader.accessRule r
    | .primary => Reader.primaryRule r
    | .element => Reader.elementRule r
    | .statement position => Reader.statementRule r position

/-- The statements of a module up to its end. -/
def readStatements (r : Rules) : Reader (List Statement) := do
  let found ← Reader.repeatFrom [] fun found => do
    if (← Reader.token) == .eof then return none
    return some ((← r (.statement .list)) :: found)
  return found.reverse

/-- Drops a byte order mark and a first line for the system, which are no part of a module. -/
def dropPreamble (text : List Char) : List Char :=
  let text :=
    match text with
    | '\ufeff' :: rest => rest
    | _ => text
  match text with
  | '#' :: '!' :: rest => rest.dropWhile fun c => !isLineEnd c
  | _ => text

/-- The cursor at the start of a text. -/
def Cursor.start (dialect : Dialect) (text : List Char) : Cursor :=
  ⟨dialect, .topLevel, Lexeme.first (dropPreamble text), text.length, false, 0⟩

/-- How often parts of a text can be inside one another: every token opens at most a handful. -/
def depthOf (text : List Char) : Nat :=
  16 * (text.length + 1)

/-- The module that a text stands for. -/
def Module.parse? (dialect : Dialect) (text : String) : Option Module :=
  let chars := text.toList
  match readStatements (rules (depthOf chars)) (Cursor.start dialect chars) with
  | some (found, c) => if c.faulty || c.pending ≠ 0 then none else some ⟨found⟩
  | none => none

end PageIndex.Script
