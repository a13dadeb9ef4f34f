import Mathlib.Data.Set.BooleanAlgebra
import Mathlib.Order.CompletePartialOrder
import PageIndex.Engine
import PageIndex.Proofs.Engine.Roots
import PageIndex.Proofs.Lookup.Interface
import PageIndex.Proofs.Page.Finding
import PageIndex.Proofs.Page.Outcome
import PageIndex.Proofs.Page.Walk
import PageIndex.Proofs.Resolve.Search
import PageIndex.Script.Equality

/-!
# What a page is made of

The closure of a page is where its file and the files really are that its import graph reaches. The
main statement is `discover_eq_of_disjoint`. When some files of a project change what they hold, the
project has the same pages, and the record of a page stays the same unless one of these files is in
its closure.
-/

namespace PageIndex

open Script

/-- The places of the files that the import graph of a file reaches. -/
def FileTree.closure (aliases : AliasTable) (t : FileTree) (file : Path) : Set (List String) :=
  {place | ∃ p node, (Codebase.ofTree aliases t).Reaches file p ∧ t.locate p = .ok (place, node)}

variable {aliases : AliasTable} {changed : Set (List String)} {t t' : FileTree} {file : Path}

namespace FileTree.AgreesOutside

/-- Outside of the changed files two trees that agree are alike. -/
theorem alike (h : t.AgreesOutside changed t') (apart : Disjoint (t.closure aliases file) changed) :
    (Codebase.ofTree aliases t).Alike {p | (Codebase.ofTree aliases t).Reaches file p}
      (Codebase.ofTree aliases t') where
  target?_eq p request := resolve?_eq h.isFile_eq p request
  module?_rel {p} reached := by
    have same : t'.readModule p = t.readModule p := by
      refine h.readModule_eq fun place node located => ?_
      exact Set.disjoint_left.1 apart ⟨p, node, reached, located⟩
    simp only [Codebase.ofTree, same]
    cases (t.readModule p).toOption with
    | none => exact .none
    | some m => exact .some (.refl m)
  closed reached imports := reached.tail imports

/-- A page has the same record in two trees that agree, unless its closure has a changed file. -/
theorem analyze_eq (h : t.AgreesOutside changed t') {page : PageFile}
    (apart : Disjoint (t.closure aliases page.path) changed) :
    Page.analyze aliases t' page = Page.analyze aliases t page := by
  have same : t'.readModule page.path = t.readModule page.path := by
    refine h.readModule_eq fun place node located => ?_
    exact Set.disjoint_left.1 apart ⟨page.path, node, .refl, located⟩
  unfold Page.analyze
  rw [same]
  cases hm : t.readModule page.path with
  | error e => rfl
  | ok m =>
    have looked (name : String) :
        (Codebase.ofTree aliases t').exportValue? [] page.path m name =
          (Codebase.ofTree aliases t).exportValue? [] page.path m name :=
      (h.alike apart).exportValue?_eq .refl (Codebase.module?_ofTree.2 hm)
        (Codebase.module?_ofTree.2 (same.trans hm)) [] name
    simp only [Page.recordOf, looked]

/-- An engine finds the same page files in two trees that agree. -/
theorem pageFiles_eq (h : t.AgreesOutside changed t') (d : t.Distinct) (d' : t'.Distinct)
    (e : Engine) : e.pageFiles t' = e.pageFiles t := by
  unfold Engine.pageFiles
  congr 1
  funext root
  exact h.collectPages_eq d d' root.directory root.convention

end FileTree.AgreesOutside

namespace Engine

/-- When two trees have the same paths and some files hold something else, an engine lists the same
pages in both, and the record of a page is the same in both if none of these files is in the
closure of the page. It does not matter what these files are, whether they hold modules, or in what
order the entries of a directory stand, if each name stands once. -/
theorem discover_eq_of_disjoint (e : Engine) {changed : Set (List String)} {t t' : FileTree}
    (h : t.AgreesOutside changed t') (d : t.Distinct) (d' : t'.Distinct) :
    (e.discover t').map (fun r => (r.route, r.path)) =
        (e.discover t).map (fun r => (r.route, r.path)) ∧
      ∀ (i : Nat) (r : PageRecord), (e.discover t)[i]? = some r →
        Disjoint (t.closure e.aliases r.path) changed → (e.discover t')[i]? = some r := by
  constructor
  · rw [discover_pages, discover_pages, h.pageFiles_eq d d' e]
  · intro i r hr apart
    rw [discover, List.getElem?_map, Option.map_eq_some_iff] at hr
    obtain ⟨page, hp, rfl⟩ := hr
    rw [(Page.outcome_analyze e.aliases t page).page_eq.2] at apart
    rw [discover, List.getElem?_map, h.pageFiles_eq d d' e, hp, Option.map_some, h.analyze_eq apart]

/-- A project with two pages. One of them and the manifest have the given texts. -/
def twoPages (about manifest : String) : FileTree :=
  ⟨.dir [("app", .dir [("about", .dir [("page.js", .file about.toUTF8)]),
      ("page.js", .file "export { llmstxt } from '../c'".toUTF8)]),
    ("c.ts", .file "export const llmstxt = 'T'".toUTF8),
    ("tsconfig.json", .file manifest.toUTF8)], []⟩

/-- An engine on such a project. -/
def pagesEngine : Engine :=
  ⟨⟨"/"⟩, { Options.default with appDirs := [⟨"app"⟩], pagesDirs := [] }, ⟨[]⟩⟩

/-- The record of the page whose text is fixed. -/
def fixedRecord : PageRecord :=
  ⟨"/", ⟨"/app/page.js"⟩, true, false, false, some (.str "T"), []⟩

private theorem agreesOutside_twoPages (about about' manifest manifest' : String) :
    (twoPages about manifest).AgreesOutside {["app", "about", "page.js"], ["tsconfig.json"]}
      (twoPages about' manifest') := by
  have page : (Node.dir [("page.js", .file about.toUTF8)]).AgreesOutside
      {["app", "about", "page.js"], ["tsconfig.json"]} ["app", "about"]
      (.dir [("page.js", .file about'.toUTF8)]) :=
    .dir (.cons ⟨rfl, .file (.inl (.inl rfl))⟩ .nil)
  refine ⟨rfl, .dir (.cons ⟨rfl, .dir (.cons ⟨rfl, page⟩ (.cons ⟨rfl, .file (.inr rfl)⟩ .nil))⟩
    (.cons ⟨rfl, .file (.inr rfl)⟩ (.cons ⟨rfl, .file (.inl (.inr rfl))⟩ .nil)))⟩

private theorem distinct_twoPages (about manifest : String) :
    (twoPages about manifest).Distinct := by
  simp [FileTree.Distinct, twoPages, Members.names]

private theorem locate_twoPages (about manifest : String) :
    (twoPages about manifest).locate ⟨"/app/page.js"⟩ =
        .ok (["app", "page.js"], .file "export { llmstxt } from '../c'".toUTF8) ∧
      (twoPages about manifest).locate ⟨"/c.ts"⟩ =
        .ok (["c.ts"], .file "export const llmstxt = 'T'".toUTF8) := by
  have page : FileTree.steps ⟨"/app/page.js"⟩ = [.root, .name "app", .name "page.js"] :=
    rfl
  have page_chars : Path.chars ⟨"/app/page.js"⟩ ≠ [] := by decide
  have config : FileTree.steps ⟨"/c.ts"⟩ = [.root, .name "c.ts"] := rfl
  have config_chars : Path.chars ⟨"/c.ts"⟩ ≠ [] := by decide
  constructor
  · simp [FileTree.locate, page, page_chars, FileTree.follow, twoPages, Node.get?, Node.child?,
      List.lookup_cons]
  · simp [FileTree.locate, config, config_chars, FileTree.follow, twoPages, Node.get?, Node.child?,
      List.lookup_cons]

private theorem module?_twoPages (about manifest : String) :
    (Codebase.ofTree ⟨[]⟩ (twoPages about manifest)).module? ⟨"/app/page.js"⟩ =
        some ⟨[.exportNames (some "../c") [⟨"llmstxt", "llmstxt"⟩]]⟩ ∧
      (Codebase.ofTree ⟨[]⟩ (twoPages about manifest)).module? ⟨"/c.ts"⟩ =
        some ⟨[.exportVariables [⟨some "llmstxt", some (.str "T")⟩]]⟩ := by
  obtain ⟨page, config⟩ := locate_twoPages about manifest
  have page_dialect : Dialect.ofPath ⟨"/app/page.js"⟩ = ⟨false, true⟩ := rfl
  have config_dialect : Dialect.ofPath ⟨"/c.ts"⟩ = ⟨true, false⟩ := rfl
  constructor <;> rw [Codebase.module?_ofTree]
  · exact FileTree.readModule_of_readText (FileTree.readText_of_locate page) page_dialect
      (by decide +kernel)
  · exact FileTree.readModule_of_readText (FileTree.readText_of_locate config) config_dialect
      (by decide +kernel)

private theorem target?_twoPages (about manifest : String) :
    (Codebase.ofTree ⟨[]⟩ (twoPages about manifest)).target? ⟨"/app/page.js"⟩ "../c" =
      some ⟨"/c.ts"⟩ := by
  obtain ⟨-, config⟩ := locate_twoPages about manifest
  have reading : Resolve.relative ⟨"/app/page.js"⟩ "../c" = ⟨"/c"⟩ := rfl
  have steps : FileTree.steps ⟨"/c"⟩ = [.root, .name "c"] := rfl
  have nonempty : Path.chars ⟨"/c"⟩ ≠ [] := by decide
  have extended : (⟨"/c"⟩ : Path).withSuffix ".ts" = ⟨"/c.ts"⟩ := rfl
  have missing : (twoPages about manifest).isFile ⟨"/c"⟩ = false := by
    simp [FileTree.isFile, FileTree.locate, steps, nonempty, FileTree.follow, twoPages, Node.get?,
      Node.child?, List.lookup_cons]
  have given : (twoPages about manifest).isFile ⟨"/c.ts"⟩ = true := by
    rw [FileTree.isFile, config]
  have probed := Resolve.probe?_of_extended missing (extended ▸ given)
  simp [Codebase.ofTree, resolve?, AliasTable.candidates, reading, probed, extended]

private theorem reaches_twoPages {about manifest : String} {p : Path}
    (h : (Codebase.ofTree ⟨[]⟩ (twoPages about manifest)).Reaches ⟨"/app/page.js"⟩ p) :
    p = ⟨"/app/page.js"⟩ ∨ p = ⟨"/c.ts"⟩ := by
  obtain ⟨page, config⟩ := module?_twoPages about manifest
  induction h with
  | refl => exact .inl rfl
  | tail _ imports ih =>
    obtain ⟨m, request, hm, hs, ht⟩ := imports
    rcases ih with rfl | rfl
    · rw [page, Option.some.injEq] at hm
      subst hm
      have only : request = "../c" := by simpa [Module.sources, Statement.sources] using hs
      rw [only, target?_twoPages, Option.some.injEq] at ht
      exact .inr ht.symm
    · rw [config, Option.some.injEq] at hm
      subst hm
      simp [Module.sources, Statement.sources] at hs

private theorem disjoint_closure_twoPages (about manifest : String) :
    Disjoint ((twoPages about manifest).closure ⟨[]⟩ ⟨"/app/page.js"⟩)
      {["app", "about", "page.js"], ["tsconfig.json"]} := by
  obtain ⟨page, config⟩ := locate_twoPages about manifest
  rw [Set.disjoint_left]
  rintro place ⟨p, node, reached, located⟩
  rcases reaches_twoPages reached with rfl | rfl
  · rw [page] at located
    cases located
    simp
  · rw [config] at located
    cases located
    simp

private theorem pageFiles_twoPages (about manifest : String) :
    pagesEngine.pageFiles (twoPages about manifest) =
      [⟨"/about", ⟨"/app/about/page.js"⟩⟩, ⟨"/", ⟨"/app/page.js"⟩⟩] := by
  have roots : pagesEngine.pageRoots = [⟨⟨"/app"⟩, .app⟩] := rfl
  have steps : FileTree.steps ⟨"/app"⟩ = [.root, .name "app"] := rfl
  have nonempty : Path.chars ⟨"/app"⟩ ≠ [] := by decide
  have shown : Convention.app.hides [] "about" = false := rfl
  have about_route : Convention.app.route? ["about"] "page.js" = some "/about" := rfl
  have top_route : Convention.app.route? [] "page.js" = some "/" := rfl
  have about_path : ((⟨"/app"⟩ : Path).child "about").child "page.js" = ⟨"/app/about/page.js"⟩ :=
    rfl
  have top_path : (⟨"/app"⟩ : Path).child "page.js" = ⟨"/app/page.js"⟩ := rfl
  simp [pageFiles, roots, FileTree.collectPages, FileTree.locate, steps, nonempty, FileTree.follow,
    twoPages, Node.get?, Node.child?, Node.pagesOf, Node.pagesAt, shown, about_route,
    top_route, about_path, top_path]
  rw [Node.inNameOrder_eq (by decide), List.flatMap_cons, Node.inNameOrder_eq (by decide)]
  rfl

private theorem exportValue?_twoPages (about manifest : String) :
    (Codebase.ofTree ⟨[]⟩ (twoPages about manifest)).exportValue? [] ⟨"/app/page.js"⟩
        ⟨[.exportNames (some "../c") [⟨"llmstxt", "llmstxt"⟩]]⟩ "llmstxt" = some (.str "T") := by
  obtain ⟨-, config⟩ := module?_twoPages about manifest
  have page_origin : Module.exportOrigin? ⟨[.exportNames (some "../c") [⟨"llmstxt", "llmstxt"⟩]]⟩
      "llmstxt" = some (.imported "../c" "llmstxt") := rfl
  have config_origin : Module.exportOrigin?
      ⟨[.exportVariables [⟨some "llmstxt", some (.str "T")⟩]]⟩ "llmstxt" =
        some (.expression (.str "T")) := rfl
  have admitted : Trail.admits [] ⟨⟨"/c.ts"⟩, .exported "llmstxt"⟩ = true := rfl
  rw [Codebase.exportValue?, page_origin]
  simp only [Codebase.originValue?]
  rw [Codebase.importedValue?, target?_twoPages]
  simp only [dif_pos admitted, config]
  rw [Codebase.exportValue?, config_origin]
  simp only [Codebase.originValue?, Codebase.valueOf]

private theorem discover_twoPages_one (about manifest : String) :
    (pagesEngine.discover (twoPages about manifest))[1]? = some fixedRecord := by
  obtain ⟨page, -⟩ := module?_twoPages about manifest
  rw [discover, List.getElem?_map, pageFiles_twoPages]
  have looked := exportValue?_twoPages about manifest
  have read := Codebase.module?_ofTree.1 page
  show some (Page.analyze ⟨[]⟩ _ _) = _
  unfold Page.analyze
  simp only [read, Page.recordOf, Page.primaryExport, looked]
  rfl

/-- The record of a page stays the same when another page is broken and the manifest, too. -/
theorem discover_twoPages :
    (twoPages "export const metadata = {}" "{}").AgreesOutside
        {["app", "about", "page.js"], ["tsconfig.json"]} (twoPages "export \x7b" "\x7b") ∧
      (twoPages "export const metadata = {}" "{}").Distinct ∧
      (twoPages "export \x7b" "\x7b").Distinct ∧
      (pagesEngine.discover (twoPages "export const metadata = {}" "{}"))[1]? =
        some fixedRecord ∧
      Disjoint ((twoPages "export const metadata = {}" "{}").closure pagesEngine.aliases
        fixedRecord.path) {["app", "about", "page.js"], ["tsconfig.json"]} ∧
      (pagesEngine.discover (twoPages "export \x7b" "\x7b"))[1]? = some fixedRecord := by
  have agree := agreesOutside_twoPages "export const metadata = {}" "export \x7b" "{}" "\x7b"
  have found := discover_twoPages_one "export const metadata = {}" "{}"
  have apart := disjoint_closure_twoPages "export const metadata = {}" "{}"
  have distinct := distinct_twoPages "export const metadata = {}" "{}"
  have distinct' := distinct_twoPages "export \x7b" "\x7b"
  exact ⟨agree, distinct, distinct', found, apart,
    (discover_eq_of_disjoint pagesEngine agree distinct distinct').2 1 _ found apart⟩

end Engine

end PageIndex
