import PageIndex.Number.Binary64

/-!
# Modules

A script module as far as its values can be known without running it: the expressions that
write a value down, the module-scope variables, and what is imported and exported. Everything
else is kept by its kind only.
-/

namespace PageIndex.Script

/-- The kinds of expressions that write no value down. -/
inductive Form where
  | member | optionalChain | call | construct | tagged | instantiation
  | function | arrow | classValue | markup | pattern | bigint | interpolation
  | self | super | importMeta | importCall
  | prefixed | update | awaited | yielded | assertion
  | binary | logical | coalesce | conditional | assignment | sequence
deriving DecidableEq, Repr

/-- The name of a property as it is written. -/
inductive Key where
  | name (text : String)
  | quoted (text : String)
  | numeric
  | computed
deriving DecidableEq, Repr

mutual

/-- An expression. -/
inductive Expr where
  | reference (name : String)
  | str (text : String)
  /-- A template without expressions in it. -/
  | template (text : String)
  | num (x : Binary64)
  | bool (b : Bool)
  | null
  | object (members : List Member)
  | array (items : List Item)
  | negative (e : Expr)
  | parenthesized (e : Expr)
  /-- An expression with the type it is taken to have. -/
  | cast (e : Expr)
  /-- An expression with a type it is checked against. -/
  | satisfying (e : Expr)
  /-- An expression that is asserted to be present. -/
  | present (e : Expr)
  | other (form : Form)

/-- A member of an object literal. -/
inductive Member where
  | property (key : Key) (value : Expr)
  | method (key : Key)
  | accessor (key : Key)
  | spread

/-- An item of an array literal. -/
inductive Item where
  | item (e : Expr)
  | spread
  | hole

end

instance : Inhabited Expr := ⟨.null⟩

/-- A declared variable. A pattern declares no variable of its own. -/
structure Declarator where
  name : Option String
  initial : Option Expr

/-- A name that an import binds. -/
inductive ImportName where
  /-- The export `exported` under the name `bound`. -/
  | named (exported bound : String)
  | default (bound : String)
  | whole (bound : String)
deriving DecidableEq, Repr

/-- A name that a list of exports gives away: `inner` in the module the list speaks of, and
`exported` outside. -/
structure ExportName where
  inner : String
  exported : String
deriving DecidableEq, Repr

/-- A statement of a module. -/
inductive Statement where
  | declareVariables (declarators : List Declarator)
  | importFrom (source : String) (names : List ImportName)
  | exportVariables (declarators : List Declarator)
  /-- A list of exports, from this module or from `source`. -/
  | exportNames (source : Option String) (names : List ExportName)
  /-- The default export, and its expression if it is one. -/
  | exportDefault (value : Option Expr)
  /-- All exports of `source`, gathered under one name or each under its own. -/
  | exportAll (source : String) (gathered : Bool)
  | other

/-- A module. -/
structure Module where
  statements : List Statement

end PageIndex.Script
