import PageIndex.Alias.Manifest
import PageIndex.Options
import PageIndex.Page.Analysis
import PageIndex.Site.Index

/-!
# The engine

An engine is opened on a project with options. It keeps the root of the project and the aliases
that the manifest had at that time; the pages are read from the tree of files anew in each pass.
-/

namespace PageIndex

/-- A directory with pages, and how they are mapped to routes. -/
structure PageRoot where
  directory : Path
  convention : Convention
deriving DecidableEq, Repr

namespace PageRoot

/-- The roots without those whose directory is the directory of an earlier one. -/
def distinct : List PageRoot → List PageRoot
  | [] => []
  | r :: rest =>
    r :: (distinct rest).filter fun s => s.directory.components ≠ r.directory.components

end PageRoot

/-- An engine that is open on a project (`Discovery`). -/
structure Engine where
  root : Path
  options : Options
  aliases : AliasTable

namespace Engine

/-- The root of a project: the given directory, without links if it exists, or else the working
directory, which may be gone (`Config::initialize`). -/
def rootOf (tree : FileTree) (options : Options) : Except FileError Path :=
  match options.root with
  | some p => .ok ((tree.canonicalize? p).getD p)
  | none => tree.currentDir

/-- The engine on the project at `root`, with the aliases that its manifest has. -/
def atRoot (tree : FileTree) (options : Options) (root : Path) : Engine :=
  ⟨root, options, AliasTable.load tree root (root.join options.manifest)⟩

/-- Opens an engine (`Discovery::new`). It fails when there is no root. -/
def ofOptions (tree : FileTree) (options : Options) : Except FileError Engine :=
  (rootOf tree options).map (atRoot tree options)

/-- The directories with pages, the app directories first (`page_roots`). A directory that is listed
twice counts where it stands first. -/
def pageRoots (e : Engine) : List PageRoot :=
  let roots (convention : Convention) (dirs : List Path) : List PageRoot :=
    dirs.map fun dir => ⟨(e.root.join dir).clean, convention⟩
  PageRoot.distinct (roots .app e.options.appDirs ++ roots .pages e.options.pagesDirs)

/-- The page files of the project (`collect_entries`). -/
def pageFiles (e : Engine) (tree : FileTree) : List PageFile :=
  e.pageRoots.flatMap fun r => tree.collectPages r.directory r.convention

/-- The records of all pages (`discover_pages`). -/
def discover (e : Engine) (tree : FileTree) : List PageRecord :=
  (e.pageFiles tree).map (Page.analyze e.aliases tree)

/-- The site index of pages (`site_config_from`). -/
def site (e : Engine) (pages : List PageRecord) : SiteIndex :=
  SiteIndex.ofPages e.options pages

end Engine

end PageIndex
