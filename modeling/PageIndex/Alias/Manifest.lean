import PageIndex.Alias.Table
import PageIndex.FileTree.Basic
import PageIndex.Json.Comments
import PageIndex.Json.Reader

/-!
# The alias manifest

The manifest is a JSON file with comments that holds the aliases of a project under
`compilerOptions.paths`. Each alias names a list of targets, of which only the first counts; a
`/*` at the end of an alias or a target stands for whatever follows and is taken off. Targets
are seen from `compilerOptions.baseUrl`, and that from the root of the project.
-/

namespace PageIndex

/-- Why the text of a manifest has no aliases. -/
inductive ManifestError where
  | notJson
deriving DecidableEq, Repr

/-- The wording of an error. -/
def ManifestError.message : ManifestError → String
  | .notJson => "Alias manifest is not valid JSON"

namespace AliasTable

/-- Arrays and objects of a manifest may be nested up to one level less than this. -/
def manifestLevels : Nat :=
  128

/-- A pattern without the `/*` at its end. -/
def withoutStar (pattern : String) : String :=
  match Text.dropEnd? ['/', '*'] pattern.toList with
  | some stem => String.ofList stem
  | none => pattern

/-- The first target of an alias, if it is a text. -/
def firstTarget? (targets : Json) : Option String := do
  let items ← targets.arr?
  let first ← items.head?
  first.str?

/-- The entry of one alias, seen from the directory that targets are relative to. -/
def entry? (base : Path) (pattern : String) (targets : Json) : Option AliasEntry :=
  (firstTarget? targets).map fun target =>
    ⟨withoutStar pattern, (base.join ⟨withoutStar target⟩).clean⟩

/-- The aliases in the value of a manifest, seen from the root of the project. -/
def ofJson (root : Path) (manifest : Json) : AliasTable :=
  match manifest.get? "compilerOptions" with
  | none => empty
  | some options =>
    match (options.get? "paths").bind Json.obj? with
    | none => empty
    | some paths =>
      let baseUrl := ((options.get? "baseUrl").bind Json.str?).getD "."
      let base := root.join ⟨baseUrl⟩
      ⟨paths.filterMap fun p => entry? base p.1 p.2⟩

/-- The aliases in the text of a manifest, seen from the root of the project
(`from_manifest_str`). -/
def ofText (root : Path) (text : String) : Except ManifestError AliasTable :=
  match Json.parse? manifestLevels (Json.strip text.toList) with
  | none => .error .notJson
  | some manifest => .ok (ofJson root manifest)

/-- The aliases in the manifest file of a project; there are none when the file is missing or cannot
be read as a manifest (`PathAliasTable::load`). -/
def load (tree : FileTree) (root manifest : Path) : AliasTable :=
  if tree.isFile manifest then
    match tree.readText manifest with
    | .error _ => empty
    | .ok text =>
      match ofText root text with
      | .error _ => empty
      | .ok table => table
  else empty

end AliasTable

end PageIndex
