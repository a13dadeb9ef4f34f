import PageIndex.Proofs.Engine.Roots
import PageIndex.Proofs.Page.Closure
import PageIndex.Proofs.Workspace.History

/-!
# The trees of a workspace

A workspace changes its files by file operations only. So if file operations made its tree from an
empty file system, they made every tree that any steps lead to (`made_run`). Such a tree has each
name once in a directory, and all its names are names of entries (`Made.distinct`, `Made.named`).
This is what the walks below page roots need to know of a tree, and so what is said about them holds
at any time (`run_lists_pages`, `run_finds_files_once`, `run_pageFiles_eq`).
-/

namespace PageIndex

namespace FileTree

/-- The file systems that file operations make from an empty one. A program may enter a directory of
any name, whether or not it is there. -/
inductive Made : FileTree → Prop where
  | empty : Made empty
  | enter {t : FileTree} {names : List String} (made : Made t)
    (named : ∀ name ∈ names, Path.IsEntryName name) : Made { t with workingDir := names }
  | write {t : FileTree} (made : Made t) (p : Path) (content : ByteArray) : Made (t.write p content)
  | makeDir {t : FileTree} (made : Made t) (p : Path) : Made (t.makeDir p)
  | makeLink {t : FileTree} (made : Made t) (p target : Path) : Made (t.makeLink p target)
  | remove {t t' : FileTree} {p : Path} (made : Made t) (removed : t.remove? p = some t') : Made t'

namespace Made

variable {t : FileTree}

/-- File operations leave each name once in a directory. -/
theorem distinct (made : t.Made) : t.Distinct := by
  induction made with
  | empty => exact distinct_empty
  | enter _ _ ih => exact ih
  | write _ p content ih => exact ih.write p content
  | makeDir _ p ih => exact ih.makeDir p
  | makeLink _ p target ih => exact ih.makeLink p target
  | remove _ removed ih => exact ih.remove? removed

/-- File operations give entries no other names than entries can have. -/
theorem named (made : t.Made) : t.Named := by
  induction made with
  | empty => exact named_empty
  | enter _ named ih => exact ⟨ih.top, named⟩
  | write _ p content ih => exact ih.write p content
  | makeDir _ p ih => exact ih.makeDir p
  | makeLink _ p target ih => exact ih.makeLink p target
  | remove _ removed ih => exact ih.remove? removed

end Made

end FileTree

namespace Workspace

variable {w w' : Workspace}

/-- A step makes the tree that it leaves by a file operation, if it changes the tree. -/
theorem made_step (made : w.tree.Made) (s : Step) : (w.step s).1.tree.Made := by
  rw [tree_step]
  cases s with
  | write p content => exact made.write p content
  | remove p =>
    rw [Step.files]
    cases removed : w.tree.remove? p with
    | none => exact made
    | some t => exact made.remove removed
  | _ => exact made

/-- Every tree that steps lead to is made by file operations. -/
theorem made_run (made : w.tree.Made) (steps : List Step) : (w.run steps).tree.Made := by
  induction steps generalizing w with
  | nil => exact made
  | cons s rest ih =>
    rw [run_cons]
    exact ih (made_step made s)

/-- After any steps a walk below a page root finds the page files there, in the order of their
names. -/
theorem run_lists_pages (made : w.tree.Made) (steps : List Step) (root : Path)
    (convention : Convention) :
    let now := (w.run steps).tree
    ∃ found, Listing convention [] root (now.collectPages root convention) found
      (now.HasPageAt root convention) :=
  FileTree.exists_listing (made_run made steps).distinct root convention

/-- After any steps an engine finds each file once, if no directory that it walks lies inside
another one. -/
theorem run_finds_files_once (made : w.tree.Made) (steps : List Step) (e : Engine)
    (outside : ∀ r ∈ e.pageRoots, ∀ s ∈ e.pageRoots, ¬ r.directory.IsInside s.directory) :
    (e.discover (w.run steps).tree).Pairwise fun a b => a.path.components ≠ b.path.components :=
  Engine.pairwise_path_discover (made_run made steps).distinct (made_run made steps).named outside

/-- However two workspaces came to trees with the same paths, an engine finds the same page files in
both of them. -/
theorem run_pageFiles_eq (made : w.tree.Made) (made' : w'.tree.Made) (steps steps' : List Step)
    {changed : Set (List String)}
    (agree : (w.run steps).tree.AgreesOutside changed (w'.run steps').tree) (e : Engine) :
    e.pageFiles (w'.run steps').tree = e.pageFiles (w.run steps).tree :=
  agree.pageFiles_eq (made_run made steps).distinct (made_run made' steps').distinct e

end Workspace

end PageIndex
