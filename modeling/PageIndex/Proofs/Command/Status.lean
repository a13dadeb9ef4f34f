import PageIndex.Command
import PageIndex.Proofs.Engine.Roots
import PageIndex.Proofs.FileTree.Contents
import PageIndex.Proofs.FileTree.Spelling
import PageIndex.Proofs.Options.Flag
import PageIndex.Proofs.Page.Finding
import PageIndex.Proofs.Page.Outcome
import PageIndex.Script.Equality

/-!
# What the status of a run tells

A run that refuses warnings ends with a failure exactly when the configuration of some page is not
found. The main statement is `status_tells_pages`: it follows the pages of the listed directories
to the status, and says that every other run of the two commands ends well.
-/

namespace PageIndex

namespace Engine

/-- A page is found under one of the listed directories, as it is listed for the first time. -/
def HasPage (e : Engine) (tree : FileTree) (page : PageFile) : Prop :=
  ∃ before root after, e.configuredRoots = before ++ root :: after ∧
    (∀ earlier ∈ before, earlier.directory.components ≠ root.directory.components) ∧
    page ∈ tree.collectPages root.directory root.convention

variable {e : Engine} {tree : FileTree}

/-- The page files are the pages that are found under the listed directories. -/
theorem mem_pageFiles_iff {page : PageFile} : page ∈ e.pageFiles tree ↔ e.HasPage tree page := by
  have roots : e.pageRoots = PageRoot.distinct e.configuredRoots := rfl
  rw [pageFiles, roots, List.mem_flatMap]
  constructor
  · rintro ⟨root, kept, found⟩
    obtain ⟨before, after, listed, apart⟩ := PageRoot.mem_distinct_iff.1 kept
    exact ⟨before, root, after, listed, apart, found⟩
  · rintro ⟨before, root, after, listed, apart, found⟩
    exact ⟨root, PageRoot.mem_distinct_iff.2 ⟨before, after, listed, apart⟩, found⟩

end Engine

/-- The file of a page gives a module, and the lookup of the configuration gives a value. -/
def Page.IsConfigured (aliases : AliasTable) (tree : FileTree) (page : PageFile) : Prop :=
  ∃ m config, tree.readModule page.path = .ok m ∧
    (Codebase.ofTree aliases tree).exportValue? [] page.path m primaryExport = some config

/-- A page has no warnings when its configuration is found. -/
theorem Page.warnings_analyze_eq_nil_iff {aliases : AliasTable} {tree : FileTree}
    {page : PageFile} : (analyze aliases tree page).warnings = [] ↔
      IsConfigured aliases tree page := by
  rw [(outcome_analyze aliases tree page).found_iff.2, IsConfigured, lookup?]
  cases read : tree.readModule page.path with
  | error e => simp
  | ok m => simp

/-- A pass gives no warnings when the configuration of every page is found. -/
theorem Engine.allWarnings_discover_eq_nil_iff {e : Engine} {tree : FileTree} :
    PageRecord.allWarnings (e.discover tree) = [] ↔
      ∀ page, e.HasPage tree page → Page.IsConfigured e.aliases tree page := by
  rw [PageRecord.allWarnings, discover, List.flatMap_eq_nil_iff, List.forall_mem_map]
  simp only [mem_pageFiles_iff, Page.warnings_analyze_eq_nil_iff]

namespace Command

section Run

variable (tree : FileTree) {words : List String} {options : Options}

/-- A report with options is a run of its command. -/
theorem outcome_discover (valid : Options.ofWords words = .ok options) :
    outcome tree ("discover" :: words) = run tree (.discover options) := by
  simp [outcome, ofWords?, ofOptions?, valid]

/-- A site index with options is a run of its command. -/
theorem outcome_site (valid : Options.ofWords words = .ok options) :
    outcome tree ("site" :: words) = run tree (.site options) := by
  simp [outcome, ofWords?, ofOptions?, valid]

/-- A run that can open no engine fails. -/
theorem status_of_ofOptions_eq_error {e : FileError} (valid : Options.ofWords words = .ok options)
    (fails : Engine.ofOptions tree options = .error e) :
    (outcome tree ("discover" :: words)).status = failed ∧
      (outcome tree ("site" :: words)).status = failed := by
  rw [outcome_discover tree valid, outcome_site tree valid]
  simp only [run, onEngine, fails, and_self]

variable {tree} {engine : Engine}

/-- A site index ends well. -/
theorem status_site (valid : Options.ofWords words = .ok options)
    (opened : Engine.ofOptions tree options = .ok engine) :
    (outcome tree ("site" :: words)).status = success := by
  rw [outcome_site tree valid]
  simp only [run, onEngine, opened]

/-- A report ends well where warnings are accepted. -/
theorem status_discover_of_notMem (valid : Options.ofWords words = .ok options)
    (opened : Engine.ofOptions tree options = .ok engine) (accepted : Options.denyFlag ∉ words) :
    (outcome tree ("discover" :: words)).status = success := by
  have accepts : options.denyWarnings = false :=
    Bool.eq_false_iff.2 (mt (Options.denyWarnings_iff valid).1 accepted)
  rw [outcome_discover tree valid]
  simp only [run, onEngine, opened, accepts, Bool.false_and, Bool.false_eq_true, if_false]

/-- Where warnings are refused, a report ends well if the configuration of every page is found, and
with a failure otherwise. -/
theorem status_discover_of_mem (valid : Options.ofWords words = .ok options)
    (opened : Engine.ofOptions tree options = .ok engine) (refused : Options.denyFlag ∈ words) :
    let configured := ∀ page, engine.HasPage tree page →
      Page.IsConfigured engine.aliases tree page
    ((outcome tree ("discover" :: words)).status = success ↔ configured) ∧
      ((outcome tree ("discover" :: words)).status = warned ↔ ¬ configured) := by
  intro configured
  have refuses : options.denyWarnings = true := (Options.denyWarnings_iff valid).2 refused
  have clean : PageRecord.allWarnings (engine.discover tree) = [] ↔ configured :=
    Engine.allWarnings_discover_eq_nil_iff
  rw [outcome_discover tree valid, ← clean]
  simp only [run, onEngine, opened, refuses, Bool.true_and, Bool.not_eq_true']
  cases PageRecord.allWarnings (engine.discover tree) <;> simp [success, warned]

end Run

/-- What the status of a run tells about the project. With a root, or with a working directory that
is there, an engine is opened. Where warnings are refused, a report then ends well when each page
under the listed directories gives a module and its configuration is found, and with a failure
otherwise; any options can be given in this way, by the switch in front of them. Where warnings are
accepted a report ends well, and a site index always does. -/
theorem status_tells_pages (tree : FileTree) {words : List String} {options : Options}
    (valid : Options.ofWords words = .ok options)
    (readable : options.root = none → ∃ here, tree.currentDir = .ok here) :
    ∃ engine, Engine.ofOptions tree options = .ok engine ∧
      let configured := ∀ page, engine.HasPage tree page →
        Page.IsConfigured engine.aliases tree page
      let status (words : List String) := (outcome tree words).status
      let strict := Options.denyFlag :: words
      (Options.denyFlag ∈ words →
        (status ("discover" :: words) = 0 ↔ configured) ∧
        (status ("discover" :: words) = 1 ↔ ¬ configured)) ∧
      (Options.denyFlag ∉ words →
        (status ("discover" :: strict) = 0 ↔ configured) ∧
        (status ("discover" :: strict) = 1 ↔ ¬ configured) ∧
        status ("discover" :: words) = 0 ∧ status ("site" :: strict) = 0) ∧
      status ("site" :: words) = 0 := by
  obtain ⟨engine, opened⟩ := Engine.exists_ofOptions readable
  refine ⟨engine, opened, status_discover_of_mem valid opened, ?_, status_site valid opened⟩
  intro accepted
  have valid' : Options.ofWords (Options.denyFlag :: words) =
      .ok { options with denyWarnings := true } :=
    Options.ofWords_cons_denyFlag valid accepted
  obtain ⟨root, given, rfl⟩ := Engine.ofOptions_eq_ok_iff.1 opened
  have opened' : Engine.ofOptions tree { options with denyWarnings := true } =
      .ok (.atRoot tree { options with denyWarnings := true } root) :=
    Engine.ofOptions_eq_ok_iff.2 ⟨root, given, rfl⟩
  obtain ⟨good, bad⟩ := status_discover_of_mem valid' opened' List.mem_cons_self
  exact ⟨good, bad, status_discover_of_notMem valid opened accepted, status_site valid' opened'⟩

/-- A project with one page. -/
def onePage (text : String) : FileTree :=
  ⟨.dir [("app", .dir [("page.js", .file text.toUTF8)])], []⟩

/-- The engine on the project with one page, where warnings may be refused. -/
def onePageEngine (deny : Bool) : Engine :=
  ⟨⟨"/"⟩, { Options.atTop with denyWarnings := deny }, .empty⟩

private theorem ofOptions_onePage (text : String) (deny : Bool) :
    Engine.ofOptions (onePage text) { Options.atTop with denyWarnings := deny } =
      .ok (onePageEngine deny) := by
  have joined : (⟨"/"⟩ : Path).join Options.atTop.manifest = ⟨"/tsconfig.json"⟩ :=
    rfl
  have steps : FileTree.steps ⟨"/tsconfig.json"⟩ = [.root, .name "tsconfig.json"] :=
    rfl
  have nonempty : Path.chars ⟨"/tsconfig.json"⟩ ≠ [] := by decide
  have missing : (onePage text).isFile ⟨"/tsconfig.json"⟩ = false := by
    simp [FileTree.isFile, FileTree.locate, steps, nonempty, FileTree.follow, Node.get?,
      Node.child?, onePage, List.lookup_cons]
  rw [Engine.ofOptions_of_root_top rfl]
  simp [Engine.atRoot, joined, AliasTable.load, missing, onePageEngine]

private theorem pageFiles_onePage (text : String) (deny : Bool) :
    (onePageEngine deny).pageFiles (onePage text) = [⟨"/", ⟨"/app/page.js"⟩⟩] := by
  have roots : (onePageEngine deny).pageRoots = [⟨⟨"/app"⟩, .app⟩, ⟨⟨"/src/app"⟩, .app⟩,
      ⟨⟨"/pages"⟩, .pages⟩, ⟨⟨"/src/pages"⟩, .pages⟩] := by
    show (onePageEngine false).pageRoots = _
    decide +kernel
  have steps : FileTree.steps ⟨"/app"⟩ = [.root, .name "app"] ∧
      FileTree.steps ⟨"/src/app"⟩ = [.root, .name "src", .name "app"] ∧
      FileTree.steps ⟨"/pages"⟩ = [.root, .name "pages"] ∧
      FileTree.steps ⟨"/src/pages"⟩ = [.root, .name "src", .name "pages"] := by
    decide +kernel
  have nonempty : Path.chars ⟨"/app"⟩ ≠ [] := by decide
  have route : Convention.app.route? [] "page.js" = some "/" := rfl
  have path : (⟨"/app"⟩ : Path).child "page.js" = ⟨"/app/page.js"⟩ := rfl
  simp [Engine.pageFiles, roots, FileTree.collectPages, FileTree.locate, steps, nonempty,
    FileTree.follow, onePage, Node.get?, Node.child?, List.lookup_cons, Node.pagesOf, Node.pagesAt,
    route, path]
  exact Node.inNameOrder_eq (List.pairwise_singleton _ _)

private theorem readText_onePage (text : String) :
    (onePage text).readText ⟨"/app/page.js"⟩ = .ok text := by
  have steps : FileTree.steps ⟨"/app/page.js"⟩ = [.root, .name "app", .name "page.js"] :=
    rfl
  have nonempty : Path.chars ⟨"/app/page.js"⟩ ≠ [] := by decide
  have found : (onePage text).locate ⟨"/app/page.js"⟩ =
      .ok (["app", "page.js"], .file text.toUTF8) := by
    simp [FileTree.locate, steps, nonempty, FileTree.follow, Node.get?, Node.child?, onePage]
  exact FileTree.readText_of_locate found

private theorem isConfigured_onePage :
    Page.IsConfigured .empty (onePage "export const llmstxt = 'T'") ⟨"/", ⟨"/app/page.js"⟩⟩ := by
  let page : Script.Module := ⟨[.exportVariables [⟨some "llmstxt", some (.str "T")⟩]]⟩
  have dialect : Script.Dialect.ofPath ⟨"/app/page.js"⟩ = ⟨false, true⟩ := rfl
  have parsed : Script.Module.parse? ⟨false, true⟩ "export const llmstxt = 'T'" = some page := by
    decide +kernel
  have origin : page.exportOrigin? Page.primaryExport = some (.expression (.str "T")) := rfl
  refine ⟨page, .str "T", FileTree.readModule_of_readText (readText_onePage _) dialect parsed, ?_⟩
  rw [Codebase.exportValue?, origin]
  simp only [Codebase.originValue?, Codebase.valueOf]

private theorem not_isConfigured_onePage :
    ¬ Page.IsConfigured .empty (onePage "export \x7b") ⟨"/", ⟨"/app/page.js"⟩⟩ := by
  have dialect : Script.Dialect.ofPath ⟨"/app/page.js"⟩ = ⟨false, true⟩ := rfl
  have parsed : Script.Module.parse? ⟨false, true⟩ "export \x7b" = none := by decide +kernel
  rintro ⟨m, config, read, -⟩
  unfold FileTree.readModule Script.Module.ofText at read
  rw [readText_onePage] at read
  dsimp only at read
  rw [dialect, parsed] at read
  cases read

/-- A page that is not finished makes a report end with a failure if warnings are refused. -/
theorem status_tells_pages_onePage :
    Options.ofWords ["--root", "/"] = .ok .atTop ∧
      Options.denyFlag ∉ ["--root", "/"] ∧
      Options.ofWords ["--root", "/", "--deny-warnings"] =
        .ok { Options.atTop with denyWarnings := true } ∧
      Options.denyFlag ∈ ["--root", "/", "--deny-warnings"] ∧
      Options.ofWords [] = .ok .default ∧
      (onePage "export \x7b").currentDir = .ok ⟨"/"⟩ ∧
      (outcome (onePage "export const llmstxt = 'T'")
        ["discover", "--deny-warnings", "--root", "/"]).status = 0 ∧
      (outcome (onePage "export \x7b") ["discover", "--deny-warnings", "--root", "/"]).status = 1 ∧
      (outcome (onePage "export \x7b") ["discover", "--root", "/", "--deny-warnings"]).status = 1 ∧
      (outcome (onePage "export \x7b") ["discover", "--root", "/"]).status = 0 ∧
      (outcome (onePage "export \x7b") ["site", "--deny-warnings", "--root", "/"]).status = 0 ∧
      (outcome (onePage "export \x7b") ["site"]).status = 0 := by
  have accepting : Options.ofWords ["--root", "/"] = .ok .atTop := rfl
  have refusing : Options.ofWords ["--root", "/", "--deny-warnings"] =
      .ok { Options.atTop with denyWarnings := true } := rfl
  have apart : Options.denyFlag ∉ ["--root", "/"] := by decide
  have given : Options.denyFlag ∈ ["--root", "/", "--deny-warnings"] := by decide
  have bare : Options.ofWords [] = .ok .default := rfl
  have here : (onePage "export \x7b").currentDir = .ok ⟨"/"⟩ := rfl
  have configured_iff (text : String) (deny : Bool) :
      (∀ page, (onePageEngine deny).HasPage (onePage text) page →
        Page.IsConfigured (onePageEngine deny).aliases (onePage text) page) ↔
          Page.IsConfigured .empty (onePage text) ⟨"/", ⟨"/app/page.js"⟩⟩ := by
    simp only [← Engine.mem_pageFiles_iff, pageFiles_onePage, List.mem_singleton, forall_eq]
    rfl
  have good := configured_iff "export const llmstxt = 'T'"
  have bad := configured_iff "export \x7b"
  obtain ⟨_, opened, -, accepted, -⟩ :=
    status_tells_pages (onePage "export const llmstxt = 'T'") accepting nofun
  cases (ofOptions_onePage _ false).symm.trans opened
  obtain ⟨_, opened, -, broken, -⟩ := status_tells_pages (onePage "export \x7b") accepting nofun
  cases (ofOptions_onePage _ false).symm.trans opened
  obtain ⟨_, opened, refused, -⟩ := status_tells_pages (onePage "export \x7b") refusing nofun
  cases (ofOptions_onePage _ true).symm.trans opened
  obtain ⟨_, -, -, -, index⟩ := status_tells_pages (onePage "export \x7b") bare fun _ => ⟨_, here⟩
  refine ⟨accepting, apart, refusing, given, bare, here, ?_, ?_, ?_, (broken apart).2.2.1,
    (broken apart).2.2.2, index⟩
  · exact (accepted apart).1.2 ((good false).2 isConfigured_onePage)
  · exact (broken apart).2.1.2 (mt (bad false).1 not_isConfigured_onePage)
  · exact (refused given).2.2 (mt (bad true).1 not_isConfigured_onePage)

end Command

end PageIndex
