import PageIndex.Engine
import PageIndex.Proofs.FileTree.Contents

/-!
# Opening an engine

An engine can be opened with all options that give a root. Without a root it stands in the working
directory, and when that is gone no engine can be opened (`ofOptions_eq_error_iff`). An engine that
was opened has the aliases that the manifest had at that time (`ofOptions_eq_ok_iff`).
-/

namespace PageIndex

/-- The options of a project at the root of all files. -/
def Options.atTop : Options :=
  { Options.default with root := some ⟨"/"⟩ }

namespace Engine

variable {tree : FileTree} {options : Options}

/-- No engine can be opened exactly when no root is given and the working directory is gone. -/
theorem ofOptions_eq_error_iff {e : FileError} :
    ofOptions tree options = .error e ↔ options.root = none ∧ tree.currentDir = .error e := by
  rw [ofOptions, rootOf]
  cases options.root with
  | some p => simp [Except.map]
  | none => cases tree.currentDir <;> simp [Except.map]

/-- An engine that was opened stands at the root of its options, and has the aliases that the
manifest has in the tree. -/
theorem ofOptions_eq_ok_iff {engine : Engine} :
    ofOptions tree options = .ok engine ↔
      ∃ root, rootOf tree options = .ok root ∧ atRoot tree options root = engine := by
  rw [ofOptions]
  cases rootOf tree options <;> simp [Except.map]

/-- An engine can be opened when a root is given or the working directory is there. -/
theorem exists_ofOptions
    (readable : options.root = none → ∃ here, tree.currentDir = .ok here) :
    ∃ engine, ofOptions tree options = .ok engine := by
  cases opened : ofOptions tree options with
  | ok engine => exact ⟨engine, rfl⟩
  | error e =>
    obtain ⟨rootless, gone⟩ := ofOptions_eq_error_iff.1 opened
    obtain ⟨here, there⟩ := readable rootless
    rw [gone] at there
    cases there

/-- A project at the root of all files can be opened. -/
theorem ofOptions_of_root_top (top : options.root = some ⟨"/"⟩) :
    ofOptions tree options = .ok (atRoot tree options ⟨"/"⟩) := by
  rw [ofOptions_eq_ok_iff, rootOf, top]
  exact ⟨⟨"/"⟩, by simp [FileTree.canonicalize?_root], rfl⟩

end Engine

end PageIndex
