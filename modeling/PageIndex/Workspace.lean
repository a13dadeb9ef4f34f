import PageIndex.Engine
import PageIndex.Report.Pages

/-!
# The workspace

A project that is worked on while an engine is open on it. Files are written and removed, the
engine is opened again with other options, and the pages are read in passes. The pages of the last
pass are kept, to be asked about without another pass.
-/

namespace PageIndex

/-- The files of a project, the engine that is open on it, and the pages of the last pass. -/
structure Workspace where
  tree : FileTree
  engine : Option Engine
  pages : List PageRecord

namespace Workspace

/-- What is done in a workspace. -/
inductive Step where
  /-- Write a file. -/
  | write (p : Path) (content : ByteArray)
  /-- Remove a file, a link or a directory with all it holds. -/
  | remove (p : Path)
  /-- Open an engine with the options that words give. -/
  | start (words : List String)
  /-- Read the pages. -/
  | pass
  /-- Index the pages as they are now. -/
  | site
  /-- Index the pages of the last pass. -/
  | storedSite
  /-- Find the page of a route among the pages of the last pass. -/
  | find (route : String)
  /-- List the warnings about the pages of the last pass. -/
  | warnings
  /-- Report the pages of the last pass. -/
  | report

/-- What a step comes to. -/
inductive Answer where
  | done
  /-- There is nothing to remove. -/
  | absent
  | started (engine : Engine)
  /-- The words give no options. -/
  | refused (problem : Options.Problem)
  /-- No engine can be opened with the options. -/
  | failed (error : FileError)
  /-- No engine is open. -/
  | idle
  | pages (records : List PageRecord)
  | page (found : Option PageRecord)
  | warnings (texts : List String)
  | site (index : SiteIndex)
  | report (spans : List Span)

/-- A workspace in which no engine was opened yet. -/
def ofTree (tree : FileTree) : Workspace :=
  ⟨tree, none, []⟩

/-- The aliases of the engine; without one there are none. -/
def aliases (w : Workspace) : AliasTable :=
  match w.engine with
  | some engine => engine.aliases
  | none => .empty

/-- What a step leaves behind, and its answer. Opening an engine forgets the pages; words that
give no options, and options with which no engine can be opened, leave everything as it is. -/
def step (w : Workspace) : Step → Workspace × Answer
  | .write p content => ({ w with tree := w.tree.write p content }, .done)
  | .remove p =>
    match w.tree.remove? p with
    | some tree => ({ w with tree }, .done)
    | none => (w, .absent)
  | .start words =>
    match Options.ofWords words with
    | .ok options =>
      match Engine.ofOptions w.tree options with
      | .ok engine => ({ w with engine := some engine, pages := [] }, .started engine)
      | .error e => (w, .failed e)
    | .error problem => (w, .refused problem)
  | .pass =>
    match w.engine with
    | some engine =>
      let pages := engine.discover w.tree
      ({ w with pages }, .pages pages)
    | none => (w, .idle)
  | .site =>
    match w.engine with
    | some engine => (w, .site (engine.site (engine.discover w.tree)))
    | none => (w, .idle)
  | .storedSite =>
    match w.engine with
    | some engine => (w, .site (engine.site w.pages))
    | none => (w, .idle)
  | .find route => (w, .page (PageRecord.find? w.pages route))
  | .warnings => (w, .warnings (PageRecord.allWarnings w.pages))
  | .report =>
    match w.engine with
    | some engine => (w, .report (Report.ofPages engine.root w.pages))
    | none => (w, .idle)

/-- The answer of a step. -/
def answer (w : Workspace) (s : Step) : Answer :=
  (w.step s).2

/-- What steps leave behind that are done one after the other. -/
def run (w : Workspace) (steps : List Step) : Workspace :=
  steps.foldl (fun w s => (w.step s).1) w

end Workspace

end PageIndex
