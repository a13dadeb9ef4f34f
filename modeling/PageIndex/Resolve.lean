import PageIndex.Alias.Table
import PageIndex.FileTree.Basic

/-!
# Import requests

The file that an import request stands for. The aliases that match the request come first, in
table order, then the relative reading of a request that starts with a point. Each reading is a
path that is tried as it is, with one of the source extensions, and as a directory with an
index file. Other requests name packages and stand for no file of the project.
-/

namespace PageIndex

namespace Resolve

/-- The extensions of source files, the preferred ones first (`RESOLVE_EXTENSIONS`). -/
def sourceExtensions : List String :=
  ["ts", "tsx", "mts", "cts", "js", "jsx", "mjs", "cjs"]

/-- The names of index files, the preferred ones first (`INDEX_FILES`). -/
def indexFiles : List String :=
  sourceExtensions.map ("index." ++ ·)

/-- The paths that are tried for one reading of a request, in order. -/
def probes (p : Path) : List Path :=
  p :: (sourceExtensions.map fun ext => p.withSuffix ("." ++ ext)) ++ indexFiles.map p.child

/-- The first of the tried paths that leads to a regular file (`resolve_file`). -/
def probe? (tree : FileTree) (p : Path) : Option Path :=
  if tree.isFile p then some p
  else
    match sourceExtensions.findSome? fun ext =>
        let q := p.withSuffix ("." ++ ext)
        if tree.isFile q then some q else none with
    | some q => some q
    | none =>
      indexFiles.findSome? fun name =>
        let q := p.child name
        if tree.isFile q then some q else none

/-- The relative reading of a request: seen from the directory of the importing file. -/
def relative (importer : Path) (request : String) : Path :=
  ((importer.parent?.getD ⟨"."⟩).join ⟨request⟩).clean

end Resolve

/-- The file that `request` stands for in the file `importer` (`resolve`). -/
def resolve? (aliases : AliasTable) (tree : FileTree) (importer : Path) (request : String) :
    Option Path :=
  match (aliases.candidates request).findSome? (Resolve.probe? tree) with
  | some found => some found
  | none =>
    if request.toList.head? = some '.' then
      Resolve.probe? tree (Resolve.relative importer request)
    else none

end PageIndex
