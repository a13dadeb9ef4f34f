import PageIndex.Proofs.FileTree.Names
import PageIndex.Proofs.Page.Listing
import PageIndex.Proofs.Route.Levels

/-!
# Pages with one route

The route of a page is made of the names of the directories that lead to it and, in a pages tree, of
the stem of its file name, without those at the end that are `index`. If no name has a reverse
solidus in it, nothing else is lost: two pages below one root have the same route only if these
segments are the same. The main statement is `collectPages_route_eq_iff`.
-/

namespace PageIndex

namespace Convention

/-- The segments of a page, by the names that lead to it from its root: those of the directories,
and in a pages tree the stem of the file name. -/
def segmentsOf (convention : Convention) (names : List String) : List String :=
  match convention with
  | .app => names.dropLast
  | .pages => names.dropLast ++ [Path.stemOf (names.getLastD "")]

variable {convention : Convention} {dirs names : List String} {name : String}

/-- The segments of the page of the given name in a directory. -/
theorem segmentsOf_concat (convention : Convention) (dirs : List String) (name : String) :
    convention.segmentsOf (dirs ++ [name]) =
      match convention with
      | .app => dirs
      | .pages => dirs ++ [Path.stemOf name] := by
  cases convention <;> simp [segmentsOf]

/-- The segments of the route of a page file. -/
theorem routeSegments?_eq (h : convention.IsPageName name) :
    convention.routeSegments? dirs name = some (convention.segmentsOf (dirs ++ [name])) := by
  have routed : (convention.routeSegments? dirs name).isSome = true := by
    rw [← Option.isSome_map]
    exact isSome_route?_iff.2 h
  rw [segmentsOf_concat]
  unfold routeSegments? at routed ⊢
  split at routed
  · cases routed
  · split at routed
    · next known =>
      rw [if_pos known]
      cases convention with
      | app =>
        dsimp only at routed ⊢
        split at routed
        · next stem => rw [if_pos stem]
        · cases routed
      | pages =>
        dsimp only at routed ⊢
        split at routed
        · cases routed
        · next shown => rw [if_neg shown]
    · cases routed

/-- A page is a file whose name comes last. -/
theorem Lists.exists_concat (h : convention.Lists names) :
    ∃ dirs name, names = dirs ++ [name] ∧ convention.IsPageName name := by
  obtain ⟨⟨name, last, isPage⟩, -⟩ := h
  obtain ⟨dirs, rfl⟩ := List.getLast?_eq_some_iff.1 last
  exact ⟨dirs, name, rfl, isPage⟩

/-- The stem of the name of a page file is not empty, and an extension follows it. -/
theorem IsPageName.exists_extension (h : convention.IsPageName name) :
    ∃ ext, name = Path.stemOf name ++ "." ++ ext ∧ Path.stemOf name ≠ "" := by
  have routed : (convention.route? [] name).isSome = true := isSome_route?_iff.2 h
  rw [route?, Option.isSome_map, routeSegments?] at routed
  split at routed
  · cases routed
  · next ext he =>
    obtain ⟨named, -, filled⟩ := Path.stemOf_extensionOf?_iff.1 ⟨rfl, he⟩
    exact ⟨ext, named, filled⟩

/-- The segments of a page can stand in a route when the names that lead to it can. -/
theorem isSegment_of_mem_segmentsOf (h : convention.Lists names)
    (plain : ∀ name ∈ names, Route.IsSegment name) :
    ∀ segment ∈ convention.segmentsOf names, Route.IsSegment segment := by
  obtain ⟨dirs, name, rfl, isPage⟩ := h.exists_concat
  obtain ⟨each, file⟩ := List.forall_mem_append.1 plain
  rw [segmentsOf_concat]
  cases convention with
  | app => exact each
  | pages =>
    refine List.forall_mem_append.2 ⟨each, List.forall_mem_singleton.2 ?_⟩
    obtain ⟨ext, named, filled⟩ := isPage.exists_extension
    obtain ⟨-, slash, reverse⟩ := List.forall_mem_singleton.1 file
    have part : (Path.stemOf name).toList ⊆ name.toList := by
      conv_rhs => rw [named]
      rw [String.toList_append, String.toList_append, List.append_assoc]
      exact List.subset_append_left _ _
    exact ⟨filled, fun h => slash (part h), fun h => reverse (part h)⟩

/-- The route of a page is made of its segments without those at the end that are `index`. -/
theorem route?_eq (h : convention.Lists names) (plain : ∀ name ∈ names, Route.IsSegment name) :
    convention.route? names.dropLast (names.getLastD "") =
      some (Route.ofNames (Route.withoutIndex (convention.segmentsOf names))) := by
  have clean := isSegment_of_mem_segmentsOf h plain
  obtain ⟨dirs, name, rfl, isPage⟩ := h.exists_concat
  rw [List.dropLast_concat, List.getLastD_concat, route?, routeSegments?_eq isPage,
    Option.map_some, ← Route.normalize_ofNames clean, Route.ofNames_eq]
  rfl

end Convention

/-- No names stand before themselves. -/
theorem Precedes.irrefl (names : List String) : ¬ Precedes names names :=
  List.lt_irrefl _

/-- The names in a listing are each listed once. -/
theorem Listing.nodup {convention : Convention} {dirs : List String} {path : Path}
    {pages : List PageFile} {found : List (List String)} {P : List String → Prop}
    (h : Listing convention dirs path pages found P) : found.Nodup := by
  refine h.increasing.imp fun before same => ?_
  subst same
  exact Precedes.irrefl _ before

/-- Pages whose names are plain, by these names. -/
theorem Listing.eq_map {convention : Convention} {path : Path} {pages : List PageFile}
    {found : List (List String)} {P : List String → Prop}
    (h : Listing convention [] path pages found P)
    (lists : ∀ names ∈ found, convention.Lists names ∧ ∀ name ∈ names, Route.IsSegment name) :
    pages = found.map fun names =>
      ⟨Route.ofNames (Route.withoutIndex (convention.segmentsOf names)), path.descend names⟩ := by
  have seen_injective : Function.Injective PageFile.seen := by
    rintro ⟨route, path⟩ ⟨route', path'⟩ same
    cases same
    rfl
  apply seen_injective.list_map
  rw [h.seen, List.map_map]
  refine List.map_congr_left fun names hn => ?_
  obtain ⟨listed, plain⟩ := lists names hn
  rw [Convention.seenAt, List.nil_append, Convention.route?_eq listed plain]
  rfl

namespace FileTree

/-- The names that lead to a page are those of a page file, and they are plain if the names below
the root are. -/
theorem HasPageAt.lists {t : FileTree} {root : Path} {convention : Convention}
    {names : List String} (h : t.HasPageAt root convention names)
    (plain : ∀ place node, t.locate root = .ok (place, node) → node.Named Route.IsSegment) :
    convention.Lists names ∧ ∀ name ∈ names, Route.IsSegment name := by
  obtain ⟨place, entries, content, located, file, lists⟩ := h
  have below : (Node.dir entries).get? names = some (.file content) := by
    rwa [Node.get?_append, get?_of_locate located, Option.bind_some] at file
  exact ⟨lists, ((plain _ _ located).get? below).1⟩

/-- The pages that a walk finds below a root, in their order. Each is told by the names that lead to
it from the root: it has the path to which they lead, and its route has the names of the directories
as its segments, and in a pages tree the stem of the file name after them, without those at the end
that are `index`. Two of the pages have the same route exactly when the same segments are left of
them. So pages of an app tree in directories whose names do not end with `index` have the same route
exactly when they lie in one directory. No segment of a route is empty. -/
theorem collectPages_route_eq_iff {t : FileTree} (distinct : t.Distinct) {root : Path}
    (plain : ∀ place node, t.locate root = .ok (place, node) → node.Named Route.IsSegment)
    (convention : Convention) :
    let kept := fun names => Route.withoutIndex (convention.segmentsOf names)
    let route := fun names => "/" ++ "/".intercalate (kept names)
    ∃ found : List (List String),
      t.collectPages root convention = found.map (fun names => ⟨route names, root.descend names⟩) ∧
      (∀ names, names ∈ found ↔ t.HasPageAt root convention names) ∧
      found.Nodup ∧
      (∀ a ∈ found, ∀ b ∈ found, route a = route b ↔ kept a = kept b) ∧
      (convention = .app → ∀ a ∈ found, ∀ b ∈ found, a.dropLast.getLast? ≠ some "index" →
        b.dropLast.getLast? ≠ some "index" → (route a = route b ↔ a.dropLast = b.dropLast)) ∧
      ∀ page ∈ t.collectPages root convention, page.route ≠ "/" →
        [] ∉ Text.splitOn '/' page.route.toList.tail := by
  intro kept route
  obtain ⟨found, listing⟩ := exists_listing distinct root convention
  have lists : ∀ names ∈ found, convention.Lists names ∧ ∀ name ∈ names, Route.IsSegment name :=
    fun names hn => ((listing.mem_iff names).1 hn).lists plain
  have clean : ∀ names ∈ found, ∀ segment ∈ kept names, Route.IsSegment segment := by
    intro names hn segment hs
    obtain ⟨listed, named⟩ := lists names hn
    exact Convention.isSegment_of_mem_segmentsOf listed named segment
      (Route.withoutIndex_subset _ hs)
  have pages : t.collectPages root convention =
      found.map fun names => ⟨route names, root.descend names⟩ := listing.eq_map lists
  have collide : ∀ a ∈ found, ∀ b ∈ found, route a = route b ↔ kept a = kept b :=
    fun a ha b hb => Route.ofNames_inj (clean a ha) (clean b hb)
  refine ⟨found, pages, listing.mem_iff, listing.nodup, collide, ?_, ?_⟩
  · rintro rfl a ha b hb open_a open_b
    have kept_a : kept a = a.dropLast := Route.withoutIndex_eq_self open_a
    have kept_b : kept b = b.dropLast := Route.withoutIndex_eq_self open_b
    rw [collide a ha b hb, kept_a, kept_b]
  · intro page hp other
    rw [pages] at hp
    obtain ⟨names, hn, rfl⟩ := List.mem_map.1 hp
    exact Route.nil_notMem_splitOn_ofNames (clean names hn) other

/-- A project with an app tree and a pages tree, in which two files of each tree are about the same
documents. All of its files hold the same text. -/
def docsTree (text : String) : FileTree :=
  let file : Node := .file text.toUTF8
  ⟨.dir [("app", .dir [("docs", .dir [("page.js", file), ("page.tsx", file)]), ("page.js", file)]),
    ("pages", .dir [("docs", .dir [("index.ts", file)]), ("docs.js", file),
      ("docsite.js", file)])], []⟩

/-- Each name stands once in each directory of the project. -/
theorem distinct_docsTree (text : String) : (docsTree text).Distinct := by
  simp [FileTree.Distinct, docsTree, Members.names]

/-- The names in the project are plain. -/
theorem named_docsTree (text : String) : (docsTree text).top.Named Route.IsSegment := by
  simp [docsTree, Route.IsSegment]

/-- Where the app tree and the pages tree of the project stand. -/
theorem locate_docsTree (text : String) :
    (docsTree text).locate ⟨"/app"⟩ = .ok (["app"],
      .dir [("docs", .dir [("page.js", .file text.toUTF8), ("page.tsx", .file text.toUTF8)]),
        ("page.js", .file text.toUTF8)]) ∧
    (docsTree text).locate ⟨"/pages"⟩ = .ok (["pages"],
      .dir [("docs", .dir [("index.ts", .file text.toUTF8)]), ("docs.js", .file text.toUTF8),
        ("docsite.js", .file text.toUTF8)]) := by
  have app : FileTree.steps ⟨"/app"⟩ = [.root, .name "app"] := rfl
  have app_chars : Path.chars ⟨"/app"⟩ ≠ [] := by decide
  have pages : FileTree.steps ⟨"/pages"⟩ = [.root, .name "pages"] := rfl
  have pages_chars : Path.chars ⟨"/pages"⟩ ≠ [] := by decide
  constructor
  · simp [locate, app, app_chars, follow, docsTree, Node.get?, Node.child?]
  · simp [locate, pages, pages_chars, follow, docsTree, Node.get?, Node.child?, List.lookup_cons]

/-- A file beside a directory collides with the page of the directory that is named `index`, and not
with a file whose name goes on. -/
theorem collectPages_route_eq_iff_docs :
    let t := docsTree ""
    let route := fun names =>
      "/" ++ "/".intercalate (Route.withoutIndex (Convention.pages.segmentsOf names))
    t.Distinct ∧
    (∀ place node, t.locate ⟨"/pages"⟩ = .ok (place, node) → node.Named Route.IsSegment) ∧
    ∃ found : List (List String),
      t.collectPages ⟨"/pages"⟩ .pages =
        found.map (fun names => ⟨route names, (⟨"/pages"⟩ : Path).descend names⟩) ∧
      ["docs.js"] ∈ found ∧ ["docs", "index.ts"] ∈ found ∧ ["docsite.js"] ∈ found ∧
      route ["docs.js"] = route ["docs", "index.ts"] ∧
      route ["docs.js"] ≠ route ["docsite.js"] := by
  intro t route
  have plain : ∀ place node, t.locate ⟨"/pages"⟩ = .ok (place, node) →
      node.Named Route.IsSegment := fun place node located =>
    ((named_docsTree "").get? (get?_of_locate located)).2
  obtain ⟨found, pages, mem, -, collide, -⟩ :=
    collectPages_route_eq_iff (distinct_docsTree "") plain .pages
  have listed (names : List String) (file : t.top.get? (["pages"] ++ names) =
      some (.file "".toUTF8)) (lists : Convention.pages.Lists names) : names ∈ found :=
    (mem names).2 ⟨_, _, _, (locate_docsTree "").2, file, lists⟩
  have docs : ["docs.js"] ∈ found :=
    listed _ rfl ⟨⟨"docs.js", rfl, "docs", "js", rfl, by simp, by simp⟩, by simp, by simp⟩
  have index : ["docs", "index.ts"] ∈ found :=
    listed _ rfl ⟨⟨"index.ts", rfl, "index", "ts", rfl, by simp, by simp⟩,
      by simp [Convention.IsOpen], by simp⟩
  have site : ["docsite.js"] ∈ found :=
    listed _ rfl ⟨⟨"docsite.js", rfl, "docsite", "js", rfl, by simp, by simp⟩, by simp, by simp⟩
  refine ⟨distinct_docsTree "", plain, found, pages, docs, index, site, ?_, ?_⟩
  · exact (collide _ docs _ index).2 (by decide)
  · exact mt (collide _ docs _ site).1 (by decide)

end FileTree

end PageIndex
