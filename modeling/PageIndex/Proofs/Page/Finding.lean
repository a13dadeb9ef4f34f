import PageIndex.Proofs.Engine.Roots
import PageIndex.Proofs.First
import PageIndex.Proofs.Route.Levels

/-!
# Finding pages by their routes

A request for a page is brought into canonical form, and the routes of the records are not. That is
enough, because the walk gives canonical routes only (`isCanonical_of_mem_discover`). So a record is
found by every spelling of its route. The main statement is `find?_discover`.
-/

namespace PageIndex

namespace Route

/-- The ways to write a route: slashes and `/index` may follow it, and a slash may be written as a
reverse solidus. -/
inductive Spells (route : String) : String → Prop where
  | self : Spells route route
  | slash {request : String} (h : Spells route request) : Spells route (request ++ "/")
  | index {request : String} (h : Spells route request) : Spells route (request ++ "/index")
  | reverse {before after : String} (h : Spells route (before ++ "/" ++ after)) :
      Spells route (before ++ "\\" ++ after)

/-- A route in another spelling has the same canonical form. -/
theorem Spells.normalize_eq {route request : String} (h : Spells route request) :
    normalize request = normalize route := by
  have ending (request segment : String) (void : isVoidSegment segment.toList = true) :
      normalize (request ++ ("/" ++ segment)) = normalize request := by
    rw [normalize_eq_iff, String.toList_append, String.toList_append]
    exact keptSegments_append void
  induction h with
  | self => rfl
  | slash _ ih => exact (ending _ "" rfl).trans ih
  | index _ ih => exact (ending _ "index" rfl).trans ih
  | @reverse before after _ ih =>
    rw [← ih, normalize_eq_iff]
    have spelled : (before ++ "\\" ++ after).toList.map unifySlash =
        (before ++ "/" ++ after).toList.map unifySlash := by
      simp [unifySlash]
    rw [keptSegments, keptSegments, rawSegments, rawSegments, spelled]

end Route

/-- The route of a page file is canonical. -/
theorem Convention.isCanonical_of_route? {convention : Convention} {dirs : List String}
    {name route : String} (h : convention.route? dirs name = some route) :
    Route.IsCanonical route := by
  obtain ⟨segments, -, rfl⟩ := Option.map_eq_some_iff.1 h
  exact Route.isCanonical_normalize _

namespace Node

variable {convention : Convention} {page : PageFile}

/-- Pages that were found in the order of the names stay in their order. -/
theorem inNameOrder_eq {found : List (String × List PageFile)}
    (sorted : found.Pairwise fun a b => Text.before a.1.toList b.1.toList) :
    inNameOrder found = found.flatMap (·.2) := by
  rw [inNameOrder, List.mergeSort_of_pairwise sorted]

/-- Pages in the order of the names are the pages that were found. -/
theorem mem_inNameOrder_iff {found : List (String × List PageFile)} :
    page ∈ inNameOrder found ↔ ∃ entry ∈ found, page ∈ entry.2 := by
  rw [inNameOrder, List.mem_flatMap]
  simp only [List.mem_mergeSort]

mutual

/-- The pages at and below an entry have canonical routes. -/
theorem isCanonical_of_mem_pagesAt {dirs : List String} {name : String} {path : Path} :
    (node : Node) → page ∈ pagesAt convention dirs name path node → Route.IsCanonical page.route
  | .file _, h => by
    obtain ⟨route, given, rfl⟩ := List.mem_map.1 h
    exact Convention.isCanonical_of_route? (Option.mem_toList.1 given)
  | .link _, h => nomatch h
  | .dir entries, h => by
    rw [pagesAt] at h
    split at h
    · cases h
    · obtain ⟨entry, found, below⟩ := mem_inNameOrder_iff.1 h
      exact isCanonical_of_mem_pagesOf entries found below

/-- The pages of each entry of a directory have canonical routes. -/
theorem isCanonical_of_mem_pagesOf {dirs : List String} {path : Path}
    {entry : String × List PageFile} : (entries : List (String × Node)) →
      entry ∈ pagesOf convention dirs path entries → page ∈ entry.2 → Route.IsCanonical page.route
  | [], found, _ => nomatch found
  | (_, node) :: rest, found, h => by
    rw [pagesOf] at found
    rcases List.mem_cons.1 found with rfl | found
    · exact isCanonical_of_mem_pagesAt node h
    · exact isCanonical_of_mem_pagesOf rest found h

end

end Node

/-- The pages below a root have canonical routes. -/
theorem FileTree.isCanonical_of_mem_collectPages {tree : FileTree} {root : Path}
    {convention : Convention} {page : PageFile} (h : page ∈ tree.collectPages root convention) :
    Route.IsCanonical page.route := by
  rw [collectPages] at h
  split at h
  · obtain ⟨entry, found, below⟩ := Node.mem_inNameOrder_iff.1 h
    exact Node.isCanonical_of_mem_pagesOf _ found below
  · cases h

/-- A request finds the first record with its canonical form as its route. -/
theorem PageRecord.find?_eq_some_iff {records : List PageRecord} {request : String}
    {found : PageRecord} : find? records request = some found ↔
      First (fun page => page.route = Route.normalize request) records found :=
  find?_eq_some_iff_first fun _ => beq_iff_eq

namespace Engine

variable {e : Engine} {tree : FileTree}

/-- The records of a project have canonical routes. -/
theorem isCanonical_of_mem_discover {page : PageRecord} (h : page ∈ e.discover tree) :
    Route.IsCanonical page.route := by
  obtain ⟨file, listed, rfl⟩ := List.mem_map.1 h
  obtain ⟨root, -, found⟩ := List.mem_flatMap.1 listed
  rw [(Page.outcome_analyze e.aliases tree file).page_eq.1]
  exact FileTree.isCanonical_of_mem_collectPages found

/-- Every record of a project has a canonical route. By this route in any spelling, the first record
with the route is found: the record itself, unless an earlier one has the same route. A request
finds a record exactly when the canonical form of the request is the route of some record, and what
is found is the first record with that route. -/
theorem find?_discover (e : Engine) (tree : FileTree) :
    let records := e.discover tree
    (∀ page ∈ records, Route.IsCanonical page.route) ∧
    (∀ page ∈ records, ∀ request, Route.Spells page.route request →
      ∃ found, PageRecord.find? records request = some found ∧
        First (fun other => other.route = page.route) records found) ∧
    (∀ before page after, records = before ++ page :: after →
      (∀ earlier ∈ before, earlier.route ≠ page.route) →
      ∀ request, Route.Spells page.route request →
        PageRecord.find? records request = some page) ∧
    (∀ request, (PageRecord.find? records request).isSome = true ↔
      ∃ page ∈ records, page.route = Route.normalize request) ∧
    ∀ request found, PageRecord.find? records request = some found ↔
      First (fun page => page.route = Route.normalize request) records found := by
  intro records
  have canonical : ∀ page ∈ records, Route.IsCanonical page.route :=
    fun page hp => isCanonical_of_mem_discover hp
  have spelled {page : PageRecord} (hp : page ∈ records) {request : String}
      (h : Route.Spells page.route request) : Route.normalize request = page.route :=
    h.normalize_eq.trans (canonical page hp)
  refine ⟨canonical, fun page hp request h => ?_,
    fun before page after parts earliest request h => ?_, fun request => ?_,
    fun request found => PageRecord.find?_eq_some_iff⟩
  · obtain ⟨found, first⟩ := exists_first (p := fun other => other.route = page.route) hp rfl
    refine ⟨found, PageRecord.find?_eq_some_iff.2 ?_, first⟩
    rw [spelled hp h]
    exact first
  · have hp : page ∈ records := parts ▸ List.mem_append_right _ List.mem_cons_self
    rw [PageRecord.find?_eq_some_iff, spelled hp h]
    exact ⟨before, after, parts, rfl, earliest⟩
  · rw [Option.isSome_iff_exists]
    constructor
    · rintro ⟨found, h⟩
      exact ⟨found, (PageRecord.find?_eq_some_iff.1 h).mem_and_holds⟩
    · rintro ⟨page, hp, route⟩
      obtain ⟨found, first⟩ :=
        exists_first (p := fun other => other.route = Route.normalize request) hp route
      exact ⟨found, PageRecord.find?_eq_some_iff.2 first⟩

private theorem hides_docs (convention : Convention) : convention.hides [] "docs" = false := by
  cases convention <;> rfl

private theorem collectPages_docsTree_app (text : String) :
    (FileTree.docsTree text).collectPages ⟨"/app"⟩ .app =
      [⟨"/docs", ⟨"/app/docs/page.js"⟩⟩, ⟨"/docs", ⟨"/app/docs/page.tsx"⟩⟩,
        ⟨"/", ⟨"/app/page.js"⟩⟩] := by
  have routes : Convention.app.route? [] "page.js" = some "/" ∧
      Convention.app.route? ["docs"] "page.js" = some "/docs" ∧
      Convention.app.route? ["docs"] "page.tsx" = some "/docs" := by
    decide +kernel
  have paths : (⟨"/app"⟩ : Path).child "page.js" = ⟨"/app/page.js"⟩ ∧
      ((⟨"/app"⟩ : Path).child "docs").child "page.js" = ⟨"/app/docs/page.js"⟩ ∧
      ((⟨"/app"⟩ : Path).child "docs").child "page.tsx" = ⟨"/app/docs/page.tsx"⟩ := by
    decide
  rw [FileTree.collectPages, (FileTree.locate_docsTree text).1]
  simp only [Node.pagesOf, Node.pagesAt, hides_docs, Bool.false_eq_true, if_false, List.nil_append,
    routes, paths]
  rw [Node.inNameOrder_eq (by decide +kernel), List.flatMap_cons,
    Node.inNameOrder_eq (by decide +kernel)]
  rfl

private theorem collectPages_docsTree_pages (text : String) :
    (FileTree.docsTree text).collectPages ⟨"/pages"⟩ .pages =
      [⟨"/docs", ⟨"/pages/docs/index.ts"⟩⟩, ⟨"/docs", ⟨"/pages/docs.js"⟩⟩,
        ⟨"/docsite", ⟨"/pages/docsite.js"⟩⟩] := by
  have routes : Convention.pages.route? [] "docs.js" = some "/docs" ∧
      Convention.pages.route? ["docs"] "index.ts" = some "/docs" ∧
      Convention.pages.route? [] "docsite.js" = some "/docsite" := by
    decide
  have paths : (⟨"/pages"⟩ : Path).child "docs.js" = ⟨"/pages/docs.js"⟩ ∧
      ((⟨"/pages"⟩ : Path).child "docs").child "index.ts" = ⟨"/pages/docs/index.ts"⟩ ∧
      (⟨"/pages"⟩ : Path).child "docsite.js" = ⟨"/pages/docsite.js"⟩ := by
    decide
  rw [FileTree.collectPages, (FileTree.locate_docsTree text).2]
  simp only [Node.pagesOf, Node.pagesAt, hides_docs, Bool.false_eq_true, if_false, List.nil_append,
    routes, paths]
  rw [Node.inNameOrder_eq (by decide +kernel), List.flatMap_cons,
    Node.inNameOrder_eq (by decide)]
  rfl

/-- The page files of the project with documents. -/
theorem pageFiles_docsTree (text : String) :
    (docsEngine text).pageFiles (FileTree.docsTree text) =
      [⟨"/docs", ⟨"/app/docs/page.js"⟩⟩, ⟨"/docs", ⟨"/app/docs/page.tsx"⟩⟩, ⟨"/", ⟨"/app/page.js"⟩⟩,
        ⟨"/docs", ⟨"/pages/docs/index.ts"⟩⟩, ⟨"/docs", ⟨"/pages/docs.js"⟩⟩,
        ⟨"/docsite", ⟨"/pages/docsite.js"⟩⟩] := by
  rw [pageFiles, pageRoots_docsTree, List.flatMap_cons, List.flatMap_singleton,
    collectPages_docsTree_app, collectPages_docsTree_pages]
  rfl

/-- In the project with documents the first of the records with the route `/docs` is found, by
another spelling of the route and for every one of them. -/
theorem find?_discover_docs :
    let tree := FileTree.docsTree ""
    let e := docsEngine ""
    let first := Page.analyze e.aliases tree ⟨"/docs", ⟨"/app/docs/page.js"⟩⟩
    let last := Page.analyze e.aliases tree ⟨"/docs", ⟨"/pages/docs.js"⟩⟩
    ofOptions tree docsOptions = .ok e ∧
    (∃ after, e.discover tree = first :: after) ∧ last ∈ e.discover tree ∧
    Route.Spells first.route "\\docs/index/" ∧ Route.Spells last.route "/docs" ∧
    PageRecord.find? (e.discover tree) "\\docs/index/" = some first ∧
    ∃ found, PageRecord.find? (e.discover tree) "/docs" = some found ∧
      First (fun other => other.route = last.route) (e.discover tree) found := by
  intro tree e first last
  have listed : e.discover tree = (e.pageFiles tree).map (Page.analyze e.aliases tree) := rfl
  rw [pageFiles_docsTree] at listed
  have first_route : first.route = "/docs" :=
    (Page.outcome_analyze e.aliases tree _).page_eq.1
  have last_route : last.route = "/docs" :=
    (Page.outcome_analyze e.aliases tree _).page_eq.1
  have first_spelled : Route.Spells first.route "\\docs/index/" := by
    rw [first_route]
    have slashed : Route.Spells "/docs" ("" ++ "/" ++ "docs") := .self
    exact .slash (.index (.reverse slashed))
  have last_spelled : Route.Spells last.route "/docs" := by
    rw [last_route]
    exact .self
  have found_last : last ∈ e.discover tree := by
    rw [listed]
    exact List.mem_map_of_mem (by simp)
  obtain ⟨-, spelled, none_before, -, -⟩ := find?_discover e tree
  exact ⟨ofOptions_docsTree "", ⟨_, listed⟩, found_last, first_spelled, last_spelled,
    none_before [] first _ listed nofun _ first_spelled, spelled last found_last _ last_spelled⟩

end Engine

end PageIndex
