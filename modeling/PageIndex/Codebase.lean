import PageIndex.Resolve
import PageIndex.Script.Grammar

/-!
# The modules of a project

What a lookup sees of a project: the module in each file, and the file that each import request
leads to. The extension of a file tells its language.
-/

namespace PageIndex

/-- Why a file gives no module. -/
inductive SourceError where
  | unreadable (e : FileError)
  | malformed
deriving DecidableEq, Repr

/-- The message about a file that gives no module. -/
def SourceError.message (p : Path) : SourceError → String
  | .unreadable e => "Failed to read " ++ p.text ++ ": " ++ e.message
  | .malformed => "Failed to parse " ++ p.text ++ ": <syntax error>"

/-- The language of a file, by its extension (`source_type_for`). -/
def Script.Dialect.ofPath (p : Path) : Script.Dialect :=
  let ext := p.extension?.getD ""
  ⟨["ts", "tsx", "mts", "cts"].contains ext, ["tsx", "jsx", "js"].contains ext⟩

/-- The module that a text stands for in the given file (`parse_source`). -/
def Script.Module.ofText (p : Path) (text : String) : Except SourceError Script.Module :=
  match Script.Module.parse? (.ofPath p) text with
  | some m => .ok m
  | none => .error .malformed

/-- The module in a file (`parse_file`). -/
def FileTree.readModule (tree : FileTree) (p : Path) : Except SourceError Script.Module :=
  match tree.readText p with
  | .error e => .error (.unreadable e)
  | .ok text => Script.Module.ofText p text

/-- The modules of a project and what their import requests lead to. -/
structure Codebase where
  module? : Path → Option Script.Module
  target? : Path → String → Option Path

namespace Codebase

/-- The codebase of a tree of files. -/
def ofTree (aliases : AliasTable) (tree : FileTree) : Codebase where
  module? p := (tree.readModule p).toOption
  target? importer request := PageIndex.resolve? aliases tree importer request

/-- The modules in the codebase of a tree are those that can be read in it. -/
theorem module?_ofTree {aliases : AliasTable} {tree : FileTree} {p : Path} {m : Script.Module} :
    (ofTree aliases tree).module? p = some m ↔ tree.readModule p = .ok m := by
  simp only [ofTree]
  cases tree.readModule p <;> simp [Except.toOption]

/-- A codebase without files. -/
def empty : Codebase where
  module? _ := none
  target? _ _ := none

end Codebase

end PageIndex
