import PageIndex.Proofs.FileTree.Contents
import PageIndex.Proofs.FileTree.Spelling
import PageIndex.Proofs.Resolve.Search

/-!
# Trees of texts

File trees in which all files stand next to each other. What a path in the root directory leads to
is then told by its name, and so is where a request goes that asks for a neighbour. The main
statements are `readModule_ofTexts` and `resolve?_ofTexts`.
-/

namespace PageIndex

namespace FileTree

/-- The path is that of an entry of the root directory. -/
def IsTopEntry (p : Path) (name : String) : Prop :=
  p.chars ≠ [] ∧ steps p = [.root, .name name]

instance (p : Path) (name : String) : Decidable (IsTopEntry p name) :=
  inferInstanceAs (Decidable (_ ∧ _))

/-- Files next to each other in the root directory, with their texts. -/
def ofTexts (texts : List (String × String)) : FileTree :=
  ⟨.dir (texts.map fun t => (t.1, .file t.2.toUTF8)), []⟩

section OfTexts

variable {texts : List (String × String)} {p : Path} {name text : String}

private theorem get?_ofTexts (name : String) :
    (ofTexts texts).top.get? [name] = (texts.lookup name).map fun text => .file text.toUTF8 := by
  have child : (ofTexts texts).top.child? name =
      (texts.lookup name).map fun text => .file text.toUTF8 := by
    show (texts.map fun t => (t.1, Node.file t.2.toUTF8)).lookup name = _
    induction texts with
    | nil => rfl
    | cons t rest ih =>
      rw [List.map_cons, List.lookup_cons, List.lookup_cons]
      cases name == t.1 with
      | true => rfl
      | false => exact ih
  rw [Node.get?, child]
  cases texts.lookup name <;> rfl

/-- A path in the root directory leads to the file of its name, if there is a text for that. -/
theorem locate_ofTexts (h : IsTopEntry p name) :
    (ofTexts texts).locate p =
      match texts.lookup name with
      | some text => .ok ([name], .file text.toUTF8)
      | none => .error .notFound := by
  obtain ⟨nonempty, steps⟩ := h
  rw [locate, if_neg (by simp [nonempty]), steps, follow, follow, List.nil_append, get?_ofTexts]
  cases texts.lookup name <;> rfl

/-- The text of a file is read. -/
theorem readText_ofTexts (h : IsTopEntry p name) (given : texts.lookup name = some text) :
    (ofTexts texts).readText p = .ok text := by
  have found : (ofTexts texts).locate p = .ok ([name], .file text.toUTF8) := by
    rw [locate_ofTexts h, given]
  exact readText_of_locate found

/-- There is a file if there is a text for it. -/
theorem isFile_ofTexts (h : IsTopEntry p name) :
    (ofTexts texts).isFile p = (texts.lookup name).isSome := by
  rw [isFile, locate_ofTexts h]
  cases texts.lookup name <;> rfl

/-- The module of a file is the one that its text stands for in the language of its name. -/
theorem readModule_ofTexts {m : Script.Module} (h : IsTopEntry p name)
    (given : texts.lookup name = some text)
    (parsed : Script.Module.parse? (.ofPath p) text = some m) :
    (ofTexts texts).readModule p = .ok m :=
  readModule_of_readText (readText_ofTexts h given) rfl parsed

/-- The path `p` is that of an entry `stem` that is not there, and `target` is the one with the first
extension that is tried, where there is a file. -/
def IsStem (texts : List (String × String)) (p : Path) (stem : String) (target : Path) : Prop :=
  (IsTopEntry p stem ∧ texts.lookup stem = none) ∧ p.withSuffix ".ts" = target ∧
    IsTopEntry target (stem ++ ".ts") ∧ (texts.lookup (stem ++ ".ts")).isSome = true

instance (texts : List (String × String)) (p : Path) (stem : String) (target : Path) :
    Decidable (IsStem texts p stem target) :=
  inferInstanceAs (Decidable (_ ∧ _))

/-- A name without its extension is tried with it. -/
theorem probe?_ofTexts {target : Path} (stem : String) (h : IsStem texts p stem target) :
    Resolve.probe? (ofTexts texts) p = some target := by
  obtain ⟨⟨bare, missing⟩, rfl, entry, given⟩ := h
  have no : (ofTexts texts).isFile p = false := by
    rw [isFile_ofTexts bare, missing]
    rfl
  exact Resolve.probe?_of_extended no ((isFile_ofTexts entry).trans given)

/-- Where files stand next to each other, a request that starts with a point and matches no alias
stands for a neighbour, whose extension it may leave out. -/
theorem resolve?_ofTexts {aliases : AliasTable} {importer target : Path} {request : String}
    (stem : String) (unmatched : aliases.candidates request = [])
    (point : request.toList.head? = some '.')
    (h : IsStem texts (Resolve.relative importer request) stem target) :
    resolve? aliases (ofTexts texts) importer request = some target := by
  simp [resolve?, unmatched, point, probe?_ofTexts stem h]

end OfTexts

end FileTree

namespace Codebase

/-- Where files stand next to each other and there are no aliases, a request that starts with a
point leads to a neighbour, whose extension it may leave out. -/
theorem target?_ofTexts {texts : List (String × String)} {importer target : Path}
    {request : String} (stem : String) (point : request.toList.head? = some '.')
    (h : FileTree.IsStem texts (Resolve.relative importer request) stem target) :
    (ofTree .empty (.ofTexts texts)).target? importer request = some target := by
  have unmatched : AliasTable.empty.candidates request = [] := rfl
  exact FileTree.resolve?_ofTexts stem unmatched point h

end Codebase

end PageIndex
