import PageIndex.Command
import PageIndex.Proofs.Engine.Opening
import PageIndex.Proofs.First
import PageIndex.Proofs.Page.Collision
import PageIndex.Proofs.Page.Outcome
import PageIndex.Proofs.Path.Inside

/-!
# The directories that are walked

The directories with pages are the listed ones in normal form, each walked once, by the convention
under which it is listed first. The records are those of the pages below them, one directory after
the other. So it changes nothing to list a directory again in another spelling, and no file has two
records unless one directory lies inside another. The main statement is `discover_walks_roots`.
-/

namespace PageIndex

/-- Two normal forms with the same components are the same. -/
theorem Path.clean_eq_clean_iff {p q : Path} :
    p.clean = q.clean ↔ p.clean.components = q.clean.components := by
  constructor
  · exact congrArg components
  · intro h
    rw [← clean_clean p, ← clean_clean q]
    exact clean_congr (congrArg _ h)

namespace PageRoot

variable {r : PageRoot} {roots before after : List PageRoot}

/-- The roots that are kept are those before which no root of the same directory is listed. -/
theorem mem_distinct_iff :
    r ∈ distinct roots ↔ ∃ before after, roots = before ++ r :: after ∧
      ∀ earlier ∈ before, earlier.directory.components ≠ r.directory.components := by
  induction roots with
  | nil => simp [distinct]
  | cons first rest ih =>
    rw [distinct, List.mem_cons, List.mem_filter, ih]
    constructor
    · rintro (rfl | ⟨⟨before, after, rfl, apart⟩, differs⟩)
      · exact ⟨[], rest, rfl, nofun⟩
      · refine ⟨first :: before, after, rfl, List.forall_mem_cons.2 ⟨?_, apart⟩⟩
        exact Ne.symm (of_decide_eq_true differs)
    · rintro ⟨before, after, listed, apart⟩
      cases before with
      | nil =>
        cases listed
        exact .inl rfl
      | cons earlier before =>
        cases listed
        obtain ⟨differs, apart⟩ := List.forall_mem_cons.1 apart
        exact .inr ⟨⟨before, after, rfl, apart⟩, decide_eq_true (Ne.symm differs)⟩

/-- The roots that are kept stay in their order. -/
theorem distinct_sublist (roots : List PageRoot) : (distinct roots).Sublist roots := by
  induction roots with
  | nil => exact .slnil
  | cons first rest ih => exact (List.filter_sublist.trans ih).cons_cons first

/-- The directories of the roots that are kept are different. -/
theorem pairwise_distinct (roots : List PageRoot) :
    (distinct roots).Pairwise fun r s => r.directory.components ≠ s.directory.components := by
  induction roots with
  | nil => exact .nil
  | cons first rest ih =>
    refine .cons (fun s hs => ?_) (ih.sublist List.filter_sublist)
    exact Ne.symm (of_decide_eq_true (List.mem_filter.1 hs).2)

/-- The roots of a directory can be left out before or after the others are told apart. -/
theorem distinct_filter (cs : List Path.Component) (roots : List PageRoot) :
    distinct (roots.filter fun s => s.directory.components ≠ cs) =
      (distinct roots).filter fun s => s.directory.components ≠ cs := by
  induction roots with
  | nil => rfl
  | cons first rest ih =>
    by_cases same : first.directory.components = cs
    · rw [List.filter_cons_of_neg (by simpa using same), ih, distinct,
        List.filter_cons_of_neg (by simpa using same), List.filter_filter, same]
      simp
    · rw [List.filter_cons_of_pos (by simpa using same), distinct, ih, distinct,
        List.filter_cons_of_pos (by simpa using same), List.filter_comm]

/-- A root whose directory is listed earlier adds nothing. -/
theorem distinct_insert
    (listed : ∃ earlier ∈ before, earlier.directory.components = r.directory.components) :
    distinct (before ++ r :: after) = distinct (before ++ after) := by
  induction before with
  | nil => simp at listed
  | cons first before ih =>
    rw [List.cons_append, List.cons_append, distinct, distinct]
    congr 1
    by_cases same : first.directory.components = r.directory.components
    · rw [← distinct_filter, ← distinct_filter, List.filter_append, List.filter_append,
        List.filter_cons_of_neg (by simpa using same.symm)]
    · obtain ⟨earlier, he, here⟩ := listed
      rcases List.mem_cons.1 he with rfl | he
      · exact absurd here same
      · rw [ih ⟨earlier, he, here⟩]

end PageRoot

/-- Whether options come from others by listing a directory again: a path that is a spelling of a
listed one, as seen from `root`, is put into a list anywhere behind it. The app directories stand
before the others. -/
inductive Options.Relists (root : Path) (o : Options) : Options → Prop where
  | app {before after : List Path} {dir listed : Path} (dirs : o.appDirs = before ++ after)
      (earlier : listed ∈ before) (same : (root.join dir).clean = (root.join listed).clean) :
      Relists root o { o with appDirs := before ++ dir :: after }
  | pages {before after : List Path} {dir listed : Path} (dirs : o.pagesDirs = before ++ after)
      (earlier : listed ∈ o.appDirs ++ before)
      (same : (root.join dir).clean = (root.join listed).clean) :
      Relists root o { o with pagesDirs := before ++ dir :: after }

namespace Engine

variable {e : Engine} {tree : FileTree} {o : Options}

/-- The directories with pages as the options list them, the app directories first. -/
def configuredRoots (e : Engine) : List PageRoot :=
  (e.options.appDirs.map fun dir => ⟨(e.root.join dir).clean, .app⟩) ++
    e.options.pagesDirs.map fun dir => ⟨(e.root.join dir).clean, .pages⟩

/-- Listed directories are the same if they have the same components. -/
theorem directory_eq_iff {r s : PageRoot} (hr : r ∈ e.configuredRoots)
    (hs : s ∈ e.configuredRoots) :
    r.directory = s.directory ↔ r.directory.components = s.directory.components := by
  have normal {r : PageRoot} (h : r ∈ e.configuredRoots) :
      ∃ dir, r.directory = (e.root.join dir).clean := by
    simp only [configuredRoots, List.mem_append, List.mem_map] at h
    rcases h with ⟨dir, -, rfl⟩ | ⟨dir, -, rfl⟩ <;> use dir
  obtain ⟨dir, hdir⟩ := normal hr
  obtain ⟨other, hother⟩ := normal hs
  rw [hdir, hother]
  exact Path.clean_eq_clean_iff

/-- A directory is walked as it is listed for the first time. -/
theorem mem_pageRoots_iff {r : PageRoot} :
    r ∈ e.pageRoots ↔ First (fun s => s.directory = r.directory) e.configuredRoots r := by
  have roots : e.pageRoots = PageRoot.distinct e.configuredRoots := rfl
  rw [roots, PageRoot.mem_distinct_iff]
  constructor
  · rintro ⟨before, after, listed, apart⟩
    exact ⟨before, after, listed, rfl, fun s hs same => apart s hs (by rw [same])⟩
  · rintro ⟨before, after, listed, -, apart⟩
    have parts (s : PageRoot) (hs : s ∈ before ++ r :: after) : s ∈ e.configuredRoots := listed ▸ hs
    refine ⟨before, after, listed, fun s hs same => apart s hs ?_⟩
    exact (directory_eq_iff (parts s (by simp [hs])) (parts r (by simp))).2 same

/-- No directory is walked twice. -/
theorem nodup_directories (e : Engine) : (e.pageRoots.map (·.directory)).Nodup := by
  refine List.pairwise_map.2 ((PageRoot.pairwise_distinct e.configuredRoots).imp ?_)
  exact fun apart same => apart (congrArg Path.components same)

/-- The pages of a project, in the order of its records. -/
theorem discover_pages (e : Engine) (t : FileTree) :
    (e.discover t).map (fun r => (r.route, r.path)) =
      (e.pageFiles t).map fun page => (page.route, page.path) := by
  rw [discover, List.map_map]
  refine List.map_congr_left fun page _ => ?_
  obtain ⟨route, path⟩ := (Page.outcome_analyze e.aliases t page).page_eq
  simp only [Function.comp_apply, route, path]

/-- A directory that is listed again stands behind where it is listed first. -/
theorem configuredRoots_relist (h : e.options.Relists e.root o) :
    ∃ before r after, e.configuredRoots = before ++ after ∧
      configuredRoots { e with options := o } = before ++ r :: after ∧
      ∃ earlier ∈ before, earlier.directory.components = r.directory.components := by
  let app (dir : Path) : PageRoot := ⟨(e.root.join dir).clean, .app⟩
  let pages (dir : Path) : PageRoot := ⟨(e.root.join dir).clean, .pages⟩
  cases h with
  | @app before after dir listed dirs earlier same =>
    refine ⟨before.map app, app dir, after.map app ++ e.options.pagesDirs.map pages, ?_, ?_,
      app listed, List.mem_map_of_mem earlier, ?_⟩
    · simp [configuredRoots, dirs, app, pages]
    · simp [configuredRoots, app, pages]
    · simp only [app, same]
  | @pages before after dir listed dirs earlier same =>
    refine ⟨e.options.appDirs.map app ++ before.map pages, pages dir, after.map pages, ?_, ?_, ?_⟩
    · simp [configuredRoots, dirs, app, pages]
    · simp [configuredRoots, app, pages]
    · rcases List.mem_append.1 earlier with inApp | inPages
      · refine ⟨app listed, List.mem_append_left _ (List.mem_map_of_mem inApp), ?_⟩
        simp only [app, pages, same]
      · refine ⟨pages listed, List.mem_append_right _ (List.mem_map_of_mem inPages), ?_⟩
        simp only [pages, same]

/-- The same directories are walked when one of them is listed again. -/
theorem pageRoots_relist (h : e.options.Relists e.root o) :
    pageRoots { e with options := o } = e.pageRoots := by
  obtain ⟨before, r, after, old, new, listed⟩ := configuredRoots_relist h
  show PageRoot.distinct (configuredRoots { e with options := o }) =
    PageRoot.distinct e.configuredRoots
  rw [old, new, PageRoot.distinct_insert listed]

/-- A pass gives the same records when a directory is listed again. -/
theorem discover_relist (h : e.options.Relists e.root o) (tree : FileTree) :
    discover { e with options := o } tree = e.discover tree := by
  rw [discover, discover, pageFiles, pageFiles, pageRoots_relist h]

/-- Pages have the same site index when a directory is listed again. -/
theorem site_relist (h : e.options.Relists e.root o) (pages : List PageRecord) :
    site { e with options := o } pages = e.site pages := by
  cases h <;> rfl

/-- The engine that is opened with options in which a directory is listed again. -/
theorem ofOptions_relist {root : Path} {o o' : Options} (h : o.Relists root o')
    (opened : ofOptions tree o = .ok e) :
    ofOptions tree o' = .ok { e with options := o' } := by
  obtain ⟨root, given, rfl⟩ := ofOptions_eq_ok_iff.1 opened
  apply ofOptions_eq_ok_iff.2
  cases h <;> exact ⟨root, given, rfl⟩

end Engine

/-- A run has the same outcome when a directory is listed again. -/
theorem Command.run_relist {tree : FileTree} {e : Engine} {o : Options}
    (opened : Engine.ofOptions tree e.options = .ok e) (h : e.options.Relists e.root o) :
    (Command.discover o).run tree = (Command.discover e.options).run tree ∧
      (Command.site o).run tree = (Command.site e.options).run tree := by
  have again := Engine.ofOptions_relist h opened
  have records := Engine.discover_relist h tree
  have index := Engine.site_relist h (e.discover tree)
  have denied : o.denyWarnings = e.options.denyWarnings := by cases h <;> rfl
  constructor
  · simp only [run, onEngine, again, opened, records, denied]
  · simp only [run, onEngine, again, opened, records, index]

/-- Names that lead on from a path are its last components. -/
theorem Path.components_descend (p : Path) {names : List String}
    (h : ∀ name ∈ names, IsEntryName name) :
    (p.descend names).components = p.components ++ names.map .name := by
  induction names generalizing p with
  | nil => simp [descend]
  | cons name rest ih =>
    obtain ⟨first, others⟩ := List.forall_mem_cons.1 h
    rw [descend, List.foldl_cons, ← descend, ih _ others, components_child p first,
      List.append_assoc]
    rfl

namespace FileTree

variable {t : FileTree}

/-- The paths of the pages below a root go on with names, which are different for each page. -/
theorem exists_components_collectPages (distinct : t.Distinct) (named : t.Named) (root : Path)
    (convention : Convention) :
    ∃ found : List (List String), found.Nodup ∧
      (t.collectPages root convention).map (·.path.components) =
        found.map fun names => root.components ++ names.map .name := by
  obtain ⟨found, listing⟩ := exists_listing distinct root convention
  refine ⟨found, listing.nodup, ?_⟩
  have paths := congrArg (List.map fun s => s.2.components) listing.seen
  rw [List.map_map, List.map_map] at paths
  refine paths.trans (List.map_congr_left fun names hn => root.components_descend ?_)
  obtain ⟨place, entries, content, located, file, -⟩ := (listing.mem_iff names).1 hn
  exact (List.forall_mem_append.1 (named.top.get? file).1).2

/-- The pages below a root have different paths. -/
theorem pairwise_path_collectPages (distinct : t.Distinct) (named : t.Named) (root : Path)
    (convention : Convention) :
    (t.collectPages root convention).Pairwise
      fun a b => a.path.components ≠ b.path.components := by
  obtain ⟨found, once, paths⟩ := exists_components_collectPages distinct named root convention
  have injective : Function.Injective Path.Component.name :=
    fun _ _ same => Path.Component.name.inj same
  have apart : ((t.collectPages root convention).map (·.path.components)).Nodup := by
    rw [paths]
    refine once.map fun names others same => ?_
    exact injective.list_map (List.append_cancel_left same)
  exact List.pairwise_map.1 apart

end FileTree

namespace Engine

variable {e : Engine} {tree : FileTree}

/-- No two records are about one file, if no directory that is walked lies inside another. -/
theorem pairwise_path_discover (distinct : tree.Distinct) (named : tree.Named)
    (outside : ∀ r ∈ e.pageRoots, ∀ s ∈ e.pageRoots, ¬ r.directory.IsInside s.directory) :
    (e.discover tree).Pairwise fun a b => a.path.components ≠ b.path.components := by
  have path (page : PageFile) : (Page.analyze e.aliases tree page).path = page.path :=
    (Page.outcome_analyze e.aliases tree page).page_eq.2
  rw [discover, List.pairwise_map]
  simp only [path]
  rw [pageFiles, List.pairwise_flatMap]
  constructor
  · intro r _
    exact tree.pairwise_path_collectPages distinct named r.directory r.convention
  · have roots : e.pageRoots.Pairwise
        fun r s => r.directory.components ≠ s.directory.components :=
      PageRoot.pairwise_distinct e.configuredRoots
    -- Names lead from two directories to one path only if one of them lies inside the other.
    refine roots.imp_of_mem fun {r s} hr hs differ a ha b hb same => ?_
    have below {r : PageRoot} {page : PageFile}
        (h : page ∈ tree.collectPages r.directory r.convention) :
        ∃ names : List String,
          page.path.components = r.directory.components ++ names.map .name := by
      obtain ⟨found, -, paths⟩ :=
        tree.exists_components_collectPages distinct named r.directory r.convention
      have listed := List.mem_map_of_mem (f := fun p : PageFile => p.path.components) h
      rw [paths] at listed
      obtain ⟨names, -, written⟩ := List.mem_map.1 listed
      exact ⟨names, written.symm⟩
    obtain ⟨names, hn⟩ := below ha
    obtain ⟨others, ho⟩ := below hb
    have one := hn.symm.trans (same.trans ho)
    rcases Path.eq_or_isInside_of_append_eq one with eq | inside | inside
    · exact differ eq
    · exact outside r hr s hs inside
    · exact outside s hs r hr inside

/-- The directories that are walked are the listed ones in normal form, the app directories first,
in their order. Each is walked once, by the convention under which it is listed first, and the
records are those of the page files below one directory after the other, one for each file. So when
a listed directory is listed again in another spelling, behind the first one, the same directories
are walked, and the records, the warnings, the site index, the report and the outcomes of the
commands stay the same. If no directory that is walked lies inside another one, no two records are
about one file. -/
theorem discover_walks_roots (e : Engine) (tree : FileTree) :
    (e.pageRoots.Sublist e.configuredRoots ∧ (e.pageRoots.map (·.directory)).Nodup ∧
      ∀ r, r ∈ e.pageRoots ↔ First (fun s => s.directory = r.directory) e.configuredRoots r) ∧
    (e.discover tree = e.pageRoots.flatMap (fun r =>
        (tree.collectPages r.directory r.convention).map (Page.analyze e.aliases tree)) ∧
      (e.discover tree).map (fun record => (record.route, record.path)) =
        e.pageRoots.flatMap fun r => (tree.collectPages r.directory r.convention).map
          fun page => (page.route, page.path)) ∧
    (∀ options, e.options.Relists e.root options →
      let again : Engine := { e with options := options }
      again.pageRoots = e.pageRoots ∧ again.discover tree = e.discover tree ∧
      PageRecord.allWarnings (again.discover tree) = PageRecord.allWarnings (e.discover tree) ∧
      again.site (again.discover tree) = e.site (e.discover tree) ∧
      Report.ofPages again.root (again.discover tree) = Report.ofPages e.root (e.discover tree) ∧
      (ofOptions tree e.options = .ok e →
        (Command.discover options).run tree = (Command.discover e.options).run tree ∧
        (Command.site options).run tree = (Command.site e.options).run tree)) ∧
    (tree.Distinct → tree.Named →
      (∀ r ∈ e.pageRoots, ∀ s ∈ e.pageRoots, ¬ r.directory.IsInside s.directory) →
      (e.discover tree).Pairwise fun a b => a.path.components ≠ b.path.components) := by
  refine ⟨⟨PageRoot.distinct_sublist e.configuredRoots, nodup_directories e,
    fun r => mem_pageRoots_iff⟩, ⟨?_, ?_⟩, fun options again => ?_, pairwise_path_discover⟩
  · rw [discover, pageFiles, List.map_flatMap]
  · rw [discover_pages, pageFiles, List.map_flatMap]
  · have records := discover_relist again tree
    refine ⟨pageRoots_relist again, records, by rw [records], ?_, by rw [records], fun opened => ?_⟩
    · rw [records, site_relist again]
    · exact Command.run_relist opened again

/-- The options of the project with documents, which have a section of their own. -/
def docsOptions : Options :=
  { Options.atTop with
    appDirs := [⟨"app"⟩]
    pagesDirs := [⟨"pages"⟩]
    sections := [⟨"Docs", "/docs"⟩] }

/-- The engine on the project with documents. -/
def docsEngine (text : String) : Engine :=
  atRoot (FileTree.docsTree text) docsOptions ⟨"/"⟩

/-- The project with documents is opened at the root of all files. -/
theorem ofOptions_docsTree (text : String) :
    ofOptions (FileTree.docsTree text) docsOptions = .ok (docsEngine text) :=
  ofOptions_of_root_top rfl

/-- The two directories of the project are walked. -/
theorem pageRoots_docsTree (text : String) :
    (docsEngine text).pageRoots = [⟨⟨"/app"⟩, .app⟩, ⟨⟨"/pages"⟩, .pages⟩] := by
  have root : (docsEngine text).root = ⟨"/"⟩ := rfl
  have options : (docsEngine text).options = docsOptions := rfl
  rw [pageRoots, root, options]
  rfl

/-- The app directory of the project can be listed again among the other ones, and no file of the
project has two records. -/
theorem discover_walks_roots_docs :
    let tree := FileTree.docsTree ""
    let e := docsEngine ""
    let again := { docsOptions with pagesDirs := [⟨"x/.././app"⟩, ⟨"pages"⟩] }
    docsOptions.Relists e.root again ∧
    discover { e with options := again } tree = e.discover tree ∧
    ofOptions tree docsOptions = .ok e ∧
    (Command.discover again).run tree = (Command.discover docsOptions).run tree ∧
    tree.Distinct ∧ tree.Named ∧
    (∀ r ∈ e.pageRoots, ∀ s ∈ e.pageRoots, ¬ r.directory.IsInside s.directory) ∧
    (e.discover tree).Pairwise fun a b => a.path.components ≠ b.path.components := by
  intro tree e again
  have same : (e.root.join ⟨"x/.././app"⟩).clean = (e.root.join ⟨"app"⟩).clean := by
    have root : e.root = ⟨"/"⟩ := rfl
    rw [root]
    rfl
  have relists : docsOptions.Relists e.root again :=
    @Options.Relists.pages e.root docsOptions [] [⟨"pages"⟩] ⟨"x/.././app"⟩ ⟨"app"⟩ rfl
      (by simp [docsOptions]) same
  have opened : ofOptions tree docsOptions = .ok e := ofOptions_docsTree ""
  have named : tree.Named :=
    ⟨by simp [tree, FileTree.docsTree, Path.IsEntryName], nofun⟩
  have outside : ∀ r ∈ e.pageRoots, ∀ s ∈ e.pageRoots, ¬ r.directory.IsInside s.directory := by
    have equal : ∀ r ∈ e.pageRoots, r.directory.components.length = 2 := by
      rw [pageRoots_docsTree]
      decide
    intro r hr s hs inside
    have longer := inside.length_lt
    rw [equal r hr, equal s hs] at longer
    exact absurd longer (lt_irrefl 2)
  have distinct := FileTree.distinct_docsTree ""
  obtain ⟨-, -, relist, apart⟩ := discover_walks_roots e tree
  obtain ⟨-, records, -, -, -, run⟩ := relist again relists
  exact ⟨relists, records, opened, (run opened).1, distinct, named, outside,
    apart distinct named outside⟩

end Engine

end PageIndex
