import Mathlib.Tactic.Choose
import Mathlib.Data.String.Basic
import PageIndex.Proofs.Page.Walk

/-!
# The pages that a walk finds

The walk below a page root finds exactly the page files that no directory hides, each of them once,
in the order of their paths. A page is known by the names that lead to it from the root, and paths
are compared name by name, the names by their bytes. The main statement is `collectPages_lists`.
-/

namespace PageIndex

namespace Path

/-- A file name with a stem and an extension is the two with a point between them. -/
theorem stemOf_extensionOf?_iff {name stem ext : String} :
    stemOf name = stem ∧ extensionOf? name = some ext ↔
      name = stem ++ "." ++ ext ∧ '.' ∉ ext.toList ∧ stem ≠ "" := by
  have cut : stemOf name = stem ∧ extensionOf? name = some ext ↔
      cutExtension name.toList = (stem.toList, some ext.toList) := by
    simp only [stemOf, extensionOf?, Prod.ext_iff, Option.map_eq_some_iff, String.ofList_eq,
      exists_eq_right]
  have text : name.toList = stem.toList ++ '.' :: ext.toList ↔ name = stem ++ "." ++ ext := by
    rw [← String.toList_inj, String.toList_append, String.toList_append]
    simp
  have empty : stem.toList ≠ [] ↔ stem ≠ "" := not_congr String.toList_eq_nil_iff
  rw [cut, cutExtension_eq_some_iff, text, empty]

/-- The path that names lead to. -/
def descend (p : Path) (names : List String) : Path :=
  names.foldl child p

end Path

namespace Convention

/-- The names of page files: an extension after a stem, which an app tree fixes. -/
def IsPageName (convention : Convention) (name : String) : Prop :=
  ∃ stem ext, name = stem ++ "." ++ ext ∧ ext ∈ ["tsx", "ts", "jsx", "js"] ∧
    match convention with
    | .app => stem = "page"
    | .pages => stem ≠ "" ∧ stem.toList.head? ≠ some '_'

/-- Whether a directory of the given name may have pages in it. -/
def IsOpen (dir : String) : Prop :=
  dir.toList.head? ≠ some '(' ∧ dir.toList.head? ≠ some '_'

/-- Whether names lead from a page root to where a page may be: the last one is the name of a page
file, and no directory on the way hides it. -/
def Lists (convention : Convention) (names : List String) : Prop :=
  (∃ name, names.getLast? = some name ∧ convention.IsPageName name) ∧
    (∀ dir ∈ names.dropLast, IsOpen dir) ∧
    (convention = .pages → names.dropLast.head? ≠ some "api")

private theorem notMem_of_mem_pageExtensions {ext : String} (h : ext ∈ pageExtensions) :
    '.' ∉ ext.toList := by
  simp only [pageExtensions, List.mem_cons, List.not_mem_nil, or_false] at h
  rcases h with rfl | rfl | rfl | rfl <;> decide

/-- A file has a route when its name is that of a page file. -/
theorem isSome_route?_iff {convention : Convention} {dirs : List String} {name : String} :
    (convention.route? dirs name).isSome = true ↔ convention.IsPageName name := by
  rw [route?, Option.isSome_map, routeSegments?]
  constructor
  · intro h
    split at h
    · cases h
    · next ext he =>
      obtain ⟨named, -, filled⟩ := Path.stemOf_extensionOf?_iff.1 ⟨rfl, he⟩
      split at h
      · next known =>
        refine ⟨Path.stemOf name, ext, named, List.contains_iff_mem.1 known, ?_⟩
        cases convention with
        | app =>
          dsimp only at h
          split at h
          · assumption
          · cases h
        | pages =>
          refine ⟨filled, fun hs => ?_⟩
          simp [startsWith, hs] at h
      · cases h
  · rintro ⟨stem, ext, named, known, hstem⟩
    have filled : stem ≠ "" := by
      cases convention with
      | app => simp [show stem = "page" from hstem]
      | pages => exact hstem.1
    obtain ⟨rfl, he⟩ :=
      Path.stemOf_extensionOf?_iff.2 ⟨named, notMem_of_mem_pageExtensions known, filled⟩
    have listed : pageExtensions.contains ext = true := List.contains_iff_mem.2 known
    simp only [he, listed, if_true]
    cases convention with
    | app => simp [show Path.stemOf name = "page" from hstem, appStem]
    | pages => simp [startsWith, hstem.2]

/-- Which directories hide what is in them. -/
theorem hides_eq_false_iff {convention : Convention} {dirs : List String} {dir : String} :
    convention.hides dirs dir = false ↔
      IsOpen dir ∧ (convention = .pages → dirs = [] → dir ≠ "api") := by
  simp [hides, startsWith, IsOpen, apiDirectory]

end Convention

namespace Node

/-- Whether names lead to a regular file without a link on the way. -/
def IsFileAt (n : Node) (names : List String) : Prop :=
  ∃ content, n.get? names = some (.file content)

end Node

namespace Convention

/-- `Lists` step by step: whether the rest of the names leads from the directories `dirs` below a
page root to where a page may be. -/
def ListsBelow (convention : Convention) : List String → List String → Prop
  | _, [] => False
  | _, [name] => convention.IsPageName name
  | dirs, dir :: next :: rest =>
    convention.hides dirs dir = false ∧ convention.ListsBelow (dirs ++ [dir]) (next :: rest)

/-- The directories on the way are open, and the first one is not the one that a pages tree keeps
for other files when it stands at the root. -/
theorem listsBelow_iff {convention : Convention} {dirs names : List String} :
    convention.ListsBelow dirs names ↔
      (∃ name, names.getLast? = some name ∧ convention.IsPageName name) ∧
        (∀ dir ∈ names.dropLast, IsOpen dir) ∧
        (convention = .pages → dirs = [] → names.dropLast.head? ≠ some "api") := by
  induction names generalizing dirs with
  | nil => simp [ListsBelow]
  | cons dir rest ih =>
    cases rest with
    | nil => simp [ListsBelow]
    | cons next rest =>
      have inner : dirs ++ [dir] ≠ [] := by simp
      rw [ListsBelow, hides_eq_false_iff, ih, List.getLast?_cons_cons, List.dropLast_cons_cons,
        List.forall_mem_cons, List.head?_cons]
      simp only [inner, ne_eq, Option.some.injEq, false_imp_iff, implies_true, and_true]
      tauto

end Convention

/-- Whether one of two paths stands before the other when they are compared name by name, the names
by the bytes of their UTF-8 forms. -/
def Precedes (a b : List String) : Prop :=
  a.map (fun name => Text.utf8 name.toList) < b.map fun name => Text.utf8 name.toList

/-- What is seen of a page: its route and its path. -/
def PageFile.seen (page : PageFile) : Option String × Path :=
  (some page.route, page.path)

/-- What would be seen of the page to which names lead from the directory `path`, which stands in
the directories `dirs` below a page root. -/
def Convention.seenAt (convention : Convention) (dirs : List String) (path : Path)
    (names : List String) : Option String × Path :=
  (convention.route? (dirs ++ names.dropLast) (names.getLastD ""), path.descend names)

/-- Whether pages are those to which the names in `found` lead from a directory: all names with the
property `P`, in the order of the paths. -/
structure Listing (convention : Convention) (dirs : List String) (path : Path)
    (pages : List PageFile) (found : List (List String)) (P : List String → Prop) : Prop where
  seen : pages.map (·.seen) = found.map (convention.seenAt dirs path)
  mem_iff : ∀ names, names ∈ found ↔ P names
  increasing : found.Pairwise Precedes

namespace Node

variable {convention : Convention} {dirs : List String} {path : Path}
  {entries : List (String × Node)}

private theorem pagesOf_eq_map (convention : Convention) (dirs : List String) (path : Path)
    (entries : List (String × Node)) :
    pagesOf convention dirs path entries =
      entries.map fun e => (e.1, pagesAt convention dirs e.1 (path.child e.1) e.2) := by
  induction entries with
  | nil => rfl
  | cons e rest ih => rw [pagesOf, ih, List.map_cons]

/-- The entries of a directory in the order of their names. -/
def ordered (entries : List (String × Node)) : List (String × Node) :=
  entries.mergeSort fun a b => Text.before a.1.toList b.1.toList

/-- The pages of a directory are those of its entries, one entry after the other. -/
theorem inNameOrder_pagesOf (convention : Convention) (dirs : List String) (path : Path)
    (entries : List (String × Node)) :
    inNameOrder (pagesOf convention dirs path entries) =
      (ordered entries).flatMap fun e => pagesAt convention dirs e.1 (path.child e.1) e.2 := by
  have sorted := List.map_mergeSort (l := entries)
    (f := fun e => (e.1, pagesAt convention dirs e.1 (path.child e.1) e.2))
    (r := fun a b => Text.before a.1.toList b.1.toList)
    (s := fun a b => Text.before a.1.toList b.1.toList) fun _ _ _ _ => rfl
  rw [inNameOrder, pagesOf_eq_map, ← sorted, List.flatMap_map, ordered]

/-- Each entry in order stands before the later ones by its name. -/
theorem pairwise_ordered (once : (Members.names entries).Nodup) :
    (ordered entries).Pairwise fun a b => Text.utf8 a.1.toList < Text.utf8 b.1.toList := by
  let order : String × Node → String × Node → Bool := fun a b =>
    Text.before a.1.toList b.1.toList
  have trans (a b c : String × Node) (hab : order a b = true) (hbc : order b c = true) :
      order a c = true := Text.before_trans hab hbc
  have total (a b : String × Node) : (order a b || order b a) = true := by
    simpa [order] using Text.before_total a.1.toList b.1.toList
  have sorted : (ordered entries).Pairwise fun a b => order a b = true :=
    List.pairwise_mergeSort trans total entries
  have perm : (ordered entries).Perm entries := List.mergeSort_perm _ _
  have distinct : (ordered entries).Pairwise fun a b => a.1 ≠ b.1 :=
    List.pairwise_map.1 ((perm.map Prod.fst).nodup_iff.2 once)
  refine (sorted.and distinct).imp fun h => ?_
  exact Text.utf8_lt_iff.2 ⟨h.1, fun e => h.2 (String.toList_inj.1 e)⟩

/-- Names lead to a file in a directory when the rest of them leads to it in one of its entries. -/
theorem isFileAt_dir_iff (once : (Members.names entries).Nodup) {names : List String} :
    (Node.dir entries).IsFileAt names ↔
      ∃ name node rest, (name, node) ∈ entries ∧ names = name :: rest ∧ node.IsFileAt rest := by
  cases names with
  | nil => simp [IsFileAt, get?]
  | cons name rest =>
    simp only [IsFileAt, get?, child?]
    constructor
    · rintro ⟨content, h⟩
      cases hl : entries.lookup name with
      | none => simp [hl] at h
      | some node =>
        rw [hl] at h
        exact ⟨name, node, rest, Members.mem_of_lookup hl, rfl, content, h⟩
    · rintro ⟨_, node, _, he, ⟨rfl, rfl⟩, content, h⟩
      rw [(Members.lookup_eq_some_iff once).2 he]
      exact ⟨content, h⟩

/-- The names that lead to the pages of a directory come from those that lead to the pages of each
of its entries. -/
theorem listing_entries (convention : Convention) (dirs : List String) (path : Path)
    (once : (Members.names entries).Nodup)
    (each : ∀ name node, (name, node) ∈ entries → ∃ found,
      Listing convention dirs path (pagesAt convention dirs name (path.child name) node) found
        fun names => ∃ rest, names = name :: rest ∧ node.IsFileAt rest ∧
          convention.ListsBelow dirs names) :
    ∃ found, Listing convention dirs path (inNameOrder (pagesOf convention dirs path entries)) found
      fun names => (Node.dir entries).IsFileAt names ∧ convention.ListsBelow dirs names := by
  choose! found listing using each
  have mem (e : String × Node) : e ∈ ordered entries ↔ e ∈ entries := List.mem_mergeSort
  have listed (e : String × Node) (he : e ∈ ordered entries) := listing e.1 e.2 ((mem e).1 he)
  refine ⟨(ordered entries).flatMap fun e => found e.1 e.2, ?_, fun names => ?_, ?_⟩
  · rw [inNameOrder_pagesOf, List.map_flatMap, List.map_flatMap]
    exact List.flatMap_congr fun e he => (listed e he).seen
  · rw [List.mem_flatMap, isFileAt_dir_iff once]
    constructor
    · rintro ⟨e, he, hn⟩
      obtain ⟨rest, hr, file, lists⟩ := ((listed e he).mem_iff names).1 hn
      exact ⟨⟨e.1, e.2, rest, (mem e).1 he, hr, file⟩, lists⟩
    · rintro ⟨⟨name, node, rest, he, hr, file⟩, lists⟩
      exact ⟨(name, node), (mem _).2 he, ((listing name node he).mem_iff names).2
        ⟨rest, hr, file, lists⟩⟩
  · rw [List.pairwise_flatMap]
    refine ⟨fun e he => (listed e he).increasing, ?_⟩
    refine (pairwise_ordered once).imp_of_mem fun he he' h names hn names' hn' => ?_
    obtain ⟨rest, rfl, -⟩ := ((listed _ he).mem_iff names).1 hn
    obtain ⟨rest', rfl, -⟩ := ((listed _ he').mem_iff names').1 hn'
    exact List.cons_lt_cons_iff.2 (.inl h)

private theorem seenAt_cons (convention : Convention) (dirs : List String) (path : Path)
    (name next : String) (rest : List String) :
    convention.seenAt dirs path (name :: next :: rest) =
      convention.seenAt (dirs ++ [name]) (path.child name) (next :: rest) := by
  simp only [Convention.seenAt, List.dropLast_cons_cons, List.append_assoc, List.singleton_append,
    List.getLastD_cons]
  rfl

/-- Nothing but the file itself stands at or below a file. -/
private theorem isFileAt_file_iff {content : ByteArray} {names : List String} :
    (Node.file content).IsFileAt names ↔ names = [] := by
  cases names <;> simp [IsFileAt, get?, child?]

/-- No file stands at or below a link. -/
private theorem not_isFileAt_link {target : Path} {names : List String} :
    ¬ (Node.link target).IsFileAt names := by
  cases names <;> simp [IsFileAt, get?, child?]

/-- The listing of nothing, when no names have the property. -/
private theorem listing_nil {P : List String → Prop} (nowhere : ∀ names, ¬ P names) :
    Listing convention dirs path [] [] P where
  seen := rfl
  mem_iff names := by simp [nowhere names]
  increasing := .nil

/-- A file is listed by its name alone, when it has a route. -/
private theorem listing_file (convention : Convention) (dirs : List String) (name : String)
    (path : Path) (content : ByteArray) :
    ∃ found, Listing convention dirs path
      (pagesAt convention dirs name (path.child name) (.file content)) found
      fun names => ∃ rest, names = name :: rest ∧ (Node.file content).IsFileAt rest ∧
        convention.ListsBelow dirs names := by
  have isPage : (convention.route? dirs name).isSome = true ↔ convention.IsPageName name :=
    Convention.isSome_route?_iff
  rw [pagesAt]
  cases hr : convention.route? dirs name with
  | none =>
    refine ⟨[], listing_nil ?_⟩
    rintro names ⟨rest, rfl, file, lists⟩
    obtain rfl := isFileAt_file_iff.1 file
    rw [hr] at isPage
    cases isPage.2 lists
  | some route =>
    refine ⟨[[name]], ?_, fun names => ?_, List.pairwise_singleton _ _⟩
    · simp [PageFile.seen, Convention.seenAt, Path.descend, hr]
    · rw [List.mem_singleton]
      constructor
      · rintro rfl
        exact ⟨[], rfl, isFileAt_file_iff.2 rfl, isPage.1 (by rw [hr]; rfl)⟩
      · rintro ⟨rest, rfl, file, -⟩
        rw [isFileAt_file_iff.1 file]

/-- The names that lead to the pages of a directory from where it stands are those that lead to
them from the directory itself, after its own name. -/
private theorem listing_dir {name : String} {pages : List PageFile} {found : List (List String)}
    (listing : Listing convention (dirs ++ [name]) (path.child name) pages found fun names =>
      (Node.dir entries).IsFileAt names ∧ convention.ListsBelow (dirs ++ [name]) names)
    (hidden : convention.hides dirs name = false) :
    Listing convention dirs path pages (found.map (name :: ·)) fun names =>
      ∃ rest, names = name :: rest ∧ (Node.dir entries).IsFileAt rest ∧
        convention.ListsBelow dirs names := by
  have step (next : String) (rest : List String) :
      convention.ListsBelow dirs (name :: next :: rest) ↔
        convention.ListsBelow (dirs ++ [name]) (next :: rest) := by
    simp [Convention.ListsBelow, hidden]
  refine ⟨?_, fun names => ?_, ?_⟩
  · rw [listing.seen, List.map_map]
    refine List.map_congr_left fun names hn => ?_
    cases names with
    | nil => exact (((listing.mem_iff _).1 hn).2).elim
    | cons next rest => exact (seenAt_cons convention dirs path name next rest).symm
  · rw [List.mem_map]
    constructor
    · rintro ⟨rest, hn, rfl⟩
      obtain ⟨file, lists⟩ := (listing.mem_iff rest).1 hn
      cases rest with
      | nil => exact lists.elim
      | cons next rest => exact ⟨_, rfl, file, (step next rest).2 lists⟩
    · rintro ⟨rest, rfl, file, lists⟩
      cases rest with
      | nil => obtain ⟨_, h⟩ := file; cases h
      | cons next rest =>
        exact ⟨_, (listing.mem_iff _).2 ⟨file, (step next rest).1 lists⟩, rfl⟩
  · refine List.pairwise_map.2 (listing.increasing.imp fun h => ?_)
    exact List.cons_lt_cons_iff.2 (.inr ⟨rfl, h⟩)

/-- The names that lead to the pages at and below an entry start with its own. -/
theorem listing_pagesAt {node : Node} (d : node.Distinct) (convention : Convention)
    (dirs : List String) (name : String) (path : Path) :
    ∃ found, Listing convention dirs path
      (pagesAt convention dirs name (path.child name) node) found
      fun names => ∃ rest, names = name :: rest ∧ node.IsFileAt rest ∧
        convention.ListsBelow dirs names := by
  induction d generalizing dirs name path with
  | file content => exact listing_file convention dirs name path content
  | link target =>
    rw [pagesAt]
    refine ⟨[], listing_nil ?_⟩
    rintro names ⟨rest, -, file, -⟩
    exact not_isFileAt_link file
  | @dir entries once below ih =>
    rw [pagesAt]
    cases hidden : convention.hides dirs name with
    | true =>
      refine ⟨[], listing_nil ?_⟩
      rintro names ⟨rest, rfl, file, lists⟩
      cases rest with
      | nil => obtain ⟨_, h⟩ := file; cases h
      | cons next rest => cases hidden.symm.trans lists.1
    | false =>
      obtain ⟨found, listing⟩ := listing_entries convention (dirs ++ [name])
        (path.child name) once fun child node he =>
          ih child node he (dirs ++ [name]) child (path.child name)
      exact ⟨found.map (name :: ·), listing_dir listing hidden⟩

end Node

namespace FileTree

/-- Whether names lead from a root that is a directory to a page file. -/
def HasPageAt (t : FileTree) (root : Path) (convention : Convention) (names : List String) : Prop :=
  ∃ place entries content, t.locate root = .ok (place, .dir entries) ∧
    t.top.get? (place ++ names) = some (.file content) ∧ convention.Lists names

/-- The pages below a root, by the names that lead to them. -/
theorem exists_listing {t : FileTree} (distinct : t.Distinct) (root : Path)
    (convention : Convention) :
    ∃ found, Listing convention [] root (t.collectPages root convention) found
      (t.HasPageAt root convention) := by
  by_cases isDir : ∃ place entries, t.locate root = .ok (place, .dir entries)
  · obtain ⟨place, entries, located⟩ := isDir
    have there : t.top.get? place = some (.dir entries) := get?_of_locate located
    cases Node.Distinct.get? distinct there with
    | dir once each =>
      obtain ⟨found, listing⟩ := Node.listing_entries convention [] root once
        fun name node he => Node.listing_pagesAt (each name node he) convention [] name root
      refine ⟨found, ?_, fun names => ?_, listing.increasing⟩
      · rw [collectPages, located]
        exact listing.seen
      · rw [listing.mem_iff, Convention.listsBelow_iff]
        simp [HasPageAt, located, Node.IsFileAt, Node.get?_append, there, Convention.Lists]
  · refine ⟨[], ?_, fun names => ?_, .nil⟩
    · rw [collectPages]
      split
      · next place entries located => exact absurd ⟨place, entries, located⟩ isDir
      · rfl
    · refine iff_of_false List.not_mem_nil ?_
      rintro ⟨place, entries, -, located, -⟩
      exact isDir ⟨place, entries, located⟩

end FileTree

/-- The walk below a root that is a directory finds exactly the page files that no directory on the
way hides, by names that no link stands among, each with its route and path, in the order of the
paths. What a link leads to is not found, and nothing is found below any other root. -/
theorem FileTree.collectPages_lists {t : FileTree} (distinct : t.Distinct) (root : Path)
    (convention : Convention) :
    (t.isDir root = false → t.collectPages root convention = []) ∧
    ∀ place entries, t.locate root = .ok (place, .dir entries) →
      ∃ found : List (List String),
        (t.collectPages root convention).map (fun page => (some page.route, page.path)) =
          found.map (fun names =>
            (convention.route? names.dropLast (names.getLastD ""), root.descend names)) ∧
        (∀ names, names ∈ found ↔
          (∃ content, t.top.get? (place ++ names) = some (.file content)) ∧
            convention.Lists names) ∧
        (∀ names target rest, t.top.get? (place ++ names) = some (.link target) →
          names ++ rest ∉ found) ∧
        found.Pairwise Precedes := by
  constructor
  · intro h
    rw [isDir] at h
    rw [collectPages]
    split
    · next hl => simp [hl] at h
    · rfl
  · intro place entries hl
    have there : t.top.get? place = some (.dir entries) := get?_of_locate hl
    have below (names : List String) :
        t.top.get? (place ++ names) = (Node.dir entries).get? names := by
      rw [Node.get?_append, there, Option.bind_some]
    cases Node.Distinct.get? distinct there with
    | dir once each =>
      obtain ⟨found, listing⟩ := Node.listing_entries convention [] root once
        fun name node he =>
          Node.listing_pagesAt (each name node he) convention [] name root
      have mem (names : List String) : names ∈ found ↔
          (∃ content, t.top.get? (place ++ names) = some (.file content)) ∧
            convention.Lists names := by
        rw [listing.mem_iff, Convention.listsBelow_iff, below, Convention.Lists]
        simp [Node.IsFileAt]
      refine ⟨found, ?_, mem, ?_, listing.increasing⟩
      · rw [collectPages, hl]
        exact listing.seen
      · intro names target rest linked h
        obtain ⟨⟨content, file⟩, -⟩ := (mem _).1 h
        rw [← List.append_assoc, Node.get?_append, linked, Option.bind_some] at file
        cases rest <;> cases file

/-- The entries of a page root with a page of its own, one in a directory, one in a group and a
link to the directory. -/
def groupedEntries : List (String × Node) :=
  [("page.tsx", .file .empty), ("docs", .dir [("page.js", .file .empty)]),
    ("(shop)", .dir [("page.tsx", .file .empty)]), ("more", .link ⟨"docs"⟩)]

/-- A file tree with this page root. -/
def groupedTree : FileTree :=
  ⟨.dir [("app", .dir groupedEntries)], []⟩

private theorem distinct_groupedTree : groupedTree.Distinct := by
  simp [FileTree.Distinct, groupedTree, groupedEntries, Members.names, Node.Distinct.link]

private theorem locate_groupedTree :
    groupedTree.locate ⟨"/app"⟩ = .ok (["app"], .dir groupedEntries) := by
  have nonempty : (⟨"/app"⟩ : Path).chars.isEmpty = false := rfl
  have steps : FileTree.steps ⟨"/app"⟩ = [.root, .name "app"] := rfl
  simp [FileTree.locate, nonempty, steps, FileTree.follow, groupedTree, Node.get?, Node.child?]

/-- The page in the directory is found, the one in the group is not, nor is the one behind the
link. -/
theorem collectPages_lists_grouped :
    groupedTree.Distinct ∧ groupedTree.locate ⟨"/app"⟩ = .ok (["app"], .dir groupedEntries) ∧
      ∃ found : List (List String),
        (groupedTree.collectPages ⟨"/app"⟩ .app).map (fun page => (some page.route, page.path)) =
          found.map (fun names =>
            (Convention.app.route? names.dropLast (names.getLastD ""),
              (⟨"/app"⟩ : Path).descend names)) ∧
        ["docs", "page.js"] ∈ found ∧ ["(shop)", "page.tsx"] ∉ found ∧
          ["more", "page.js"] ∉ found := by
  obtain ⟨found, seen, mem, linked, -⟩ :=
    (FileTree.collectPages_lists distinct_groupedTree ⟨"/app"⟩ .app).2 _ _ locate_groupedTree
  refine ⟨distinct_groupedTree, locate_groupedTree, found, seen, ?_, fun h => ?_, ?_⟩
  · refine (mem _).2 ⟨⟨_, rfl⟩, ⟨"page.js", rfl, "page", "js", rfl, by simp, rfl⟩, ?_, nofun⟩
    simp [Convention.IsOpen]
  · simpa [Convention.IsOpen] using ((mem _).1 h).2.2.1
  · exact linked ["more"] ⟨"docs"⟩ ["page.js"] rfl

end PageIndex
