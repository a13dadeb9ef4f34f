import PageIndex.Proofs.FileTree.Spelling
import PageIndex.Proofs.Options.Reading
import PageIndex.Proofs.Page.Finding
import PageIndex.Proofs.Site.Partition
import PageIndex.Script.Equality

/-!
# Rules that cover whole segments

A section rule covers a route when the route starts with the levels of the rule
(`covers_iff_levels`). So it is never part of a segment that is covered, and what is covered stays
covered further down. The main statement is `covers_by_levels`, which follows a page from the walk
to its section in the site index.
-/

namespace PageIndex

/-- More text after a slash adds levels to a route other than the root. -/
theorem Route.levels_of_append {route longer : String} {rest : List Char} (filled : route ≠ "")
    (below : route ≠ "/") (written : longer.toList = route.toList ++ '/' :: rest) :
    levels longer = levels route ++ Text.splitOn '/' rest := by
  obtain ⟨c, cs, parts⟩ := List.exists_cons_of_ne_nil (mt String.toList_eq_nil_iff.1 filled)
  have other : longer ≠ "/" := by
    rintro rfl
    rw [parts] at written
    simpa using congrArg List.length written
  rw [levels, if_neg other, levels, if_neg below, written, parts, List.cons_append, List.tail_cons,
    List.tail_cons, Text.splitOn_append_cons]

namespace SectionRule

variable {rule longer : SectionRule} {route : String}

/-- The route of a rule that is read from a text is canonical. -/
theorem IsAccepted.isCanonical (h : rule.IsAccepted) : Route.IsCanonical rule.route := by
  obtain ⟨text, read⟩ := h
  rw [ofText?] at read
  split at read
  · cases read
  · dsimp only at read
    split at read
    · cases read
    · cases read
      exact Route.isCanonical_normalize _

/-- A rule covers a canonical route when the levels of the route start with those of the rule. -/
theorem covers_iff_levels (accepted : rule.IsAccepted) (canonical : Route.IsCanonical route) :
    rule.covers route = true ↔ Route.levels rule.route <+: Route.levels route := by
  have own : rule.route.toList = Route.ofSegments (Route.levels rule.route) :=
    accepted.isCanonical.toList_eq
  rw [covers_iff]
  by_cases root : rule.route = "/"
  · simp [root, Route.levels]
  · rw [or_iff_right root]
    constructor
    · rintro (rfl | ⟨rest, written⟩)
      · exact List.prefix_rfl
      · have filled : rule.route ≠ "" := fun empty => by
          rw [empty] at own
          cases own
        exact ⟨_, (Route.levels_of_append filled root written).symm⟩
    · rintro ⟨more, parts⟩
      by_cases nothing : more = []
      · rw [nothing, List.append_nil] at parts
        exact .inl ((Route.levels_inj canonical accepted.isCanonical).1 parts.symm)
      · have nonempty : Route.levels rule.route ≠ [] := fun empty => by
          rw [empty] at own
          exact root (String.toList_inj.1 own)
        refine .inr ⟨Text.joinWith ['/'] more, ?_⟩
        rw [canonical.toList_eq, ← parts, Route.ofSegments_append nonempty nothing, ← own]
        rfl

/-- A route that goes on within a segment is not covered. -/
theorem covers_eq_false_of_append {c : Char} {rest : List Char} (root : rule.route ≠ "/")
    (within : c ≠ '/') (written : route.toList = rule.route.toList ++ c :: rest) :
    rule.covers route = false := by
  rw [← Bool.not_eq_true, covers_iff, written]
  rintro (top | rfl | ⟨more, same⟩)
  · exact root top
  · simp at written
  · exact within (List.cons.inj (List.append_cancel_left same)).1

/-- A rule covers what is covered by a rule whose levels start with its own. -/
theorem covers_of_prefix {below : SectionRule} (accepted : rule.IsAccepted)
    (accepted' : below.IsAccepted) (h : Route.levels rule.route <+: Route.levels below.route)
    (covered : below.covers route = true) : rule.covers route = true := by
  have own : rule.covers below.route = true :=
    (covers_iff_levels accepted accepted'.isCanonical).2 h
  rw [covers_iff] at covered
  rcases covered with root | rfl | ⟨rest, written⟩
  · -- Only the rule of the root covers the root.
    have rootLevels : Route.levels rule.route = Route.levels "/" := by
      rw [root] at h
      exact List.prefix_nil.1 h
    have top : Route.IsCanonical "/" := rfl
    exact covers_iff.2 (.inl ((Route.levels_inj accepted.isCanonical top).1 rootLevels))
  · exact own
  · rw [covers_iff] at own ⊢
    rcases own with top | same | ⟨between, longer⟩
    · exact .inl top
    · exact .inr (.inr ⟨rest, same ▸ written⟩)
    · exact .inr (.inr ⟨between ++ '/' :: rest, by rw [written, longer]; simp⟩)

end SectionRule

namespace SiteIndex

variable {o : Options} {pages : List PageRecord} {page : PageRecord}

/-- Whether a page belongs to the section of the given number and title: the number is computed for
it, and if the page is kept, the section is in the index and has the link to it. -/
def BelongsTo (o : Options) (pages : List PageRecord) (page : PageRecord) (number : Nat)
    (title : String) : Prop :=
  slot o.sections page.route = number ∧
    (keeps o page = true → sectionAt o pages number title ∈ (ofPages o pages).sections ∧
      link o page ∈ (sectionAt o pages number title).links)

/-- A page belongs to the section of its number. -/
theorem belongsTo_slot (hp : page ∈ pages) {number : Nat} {title : String}
    (computed : slot o.sections page.route = number)
    (named : (titles o.sections)[number]? = some title) : BelongsTo o pages page number title := by
  refine ⟨computed, fun kept => ?_⟩
  have linked : link o page ∈ (sectionAt o pages number title).links :=
    List.mem_map_of_mem (List.mem_filter.2 ⟨hp, by simp [kept, computed]⟩)
  refine ⟨List.mem_filter.2 ⟨?_, ?_⟩, linked⟩
  · exact List.mem_map.2 ⟨(title, number), List.mk_mem_zipIdx_iff_getElem?.2 named, rfl⟩
  · simpa using List.ne_nil_of_mem linked

/-- A page belongs to the section of the first rule that covers its route. -/
theorem belongsTo_of_covers (hp : page ∈ pages) {before after : List SectionRule}
    {rule : SectionRule} (rules : o.sections = before ++ rule :: after)
    (covered : rule.covers page.route = true)
    (uncovered : ∀ earlier ∈ before, earlier.covers page.route = false) :
    BelongsTo o pages page (before.length + 1) rule.title := by
  refine belongsTo_slot hp (slot_eq_iff.2 ⟨rule, ?_, covered, ?_⟩) ?_
  · simp [rules]
  · simpa [rules] using uncovered
  · simp [titles, rules]

/-- A page that no rule covers belongs to the section in front of the others. -/
theorem belongsTo_of_not_covers (hp : page ∈ pages)
    (uncovered : ∀ rule ∈ o.sections, rule.covers page.route = false) :
    BelongsTo o pages page 0 mainTitle :=
  belongsTo_slot hp (slot_eq_iff.2 uncovered) rfl

end SiteIndex

/-- A section rule covers a canonical route exactly when the levels of the route start with those of
the rule. So it does not cover a route that goes on within a segment, it covers what goes on below a
route that it covers, and it covers all that is covered by a rule which goes on below it. All rules
of a command line are read from texts. In the site index, a page of the project belongs to the
section of the first of such rules with whose levels its route starts, or to the main section when
there is none. -/
theorem SectionRule.covers_by_levels :
    (∀ rule : SectionRule, rule.IsAccepted →
      (∀ route, Route.IsCanonical route →
        (rule.covers route = true ↔ Route.levels rule.route <+: Route.levels route)) ∧
      (rule.route ≠ "/" → ∀ (route : String) (c : Char) (rest : List Char), c ≠ '/' →
        route.toList = rule.route.toList ++ c :: rest → rule.covers route = false) ∧
      (∀ route longer, Route.IsCanonical route → Route.IsCanonical longer →
        Route.levels route <+: Route.levels longer →
        rule.covers route = true → rule.covers longer = true) ∧
      ∀ below : SectionRule, below.IsAccepted →
        Route.levels rule.route <+: Route.levels below.route →
        ∀ route, below.covers route = true → rule.covers route = true) ∧
    (∀ words options, Options.ofWords words = .ok options →
      ∀ rule ∈ options.sections, rule.IsAccepted) ∧
    ∀ (e : Engine) (tree : FileTree), (∀ rule ∈ e.options.sections, rule.IsAccepted) →
      ∀ page ∈ e.discover tree,
        (∀ before rule after, e.options.sections = before ++ rule :: after →
          Route.levels rule.route <+: Route.levels page.route →
          (∀ earlier ∈ before, ¬ Route.levels earlier.route <+: Route.levels page.route) →
          SiteIndex.BelongsTo e.options (e.discover tree) page (before.length + 1) rule.title) ∧
        ((∀ rule ∈ e.options.sections, ¬ Route.levels rule.route <+: Route.levels page.route) →
          SiteIndex.BelongsTo e.options (e.discover tree) page 0 "Main Pages") := by
  refine ⟨fun rule accepted => ⟨fun route => covers_iff_levels accepted, fun root route c rest =>
      covers_eq_false_of_append root, ?_, fun below accepted' h route =>
      covers_of_prefix accepted accepted' h⟩,
    fun words options => Options.isAccepted_of_ofWords, fun e tree accepted page hp => ?_⟩
  · intro route longer canonical canonical' h covered
    rw [covers_iff_levels accepted canonical] at covered
    exact (covers_iff_levels accepted canonical').2 (covered.trans h)
  · have canonical : Route.IsCanonical page.route := Engine.isCanonical_of_mem_discover hp
    have apart {rule : SectionRule} (hr : rule ∈ e.options.sections)
        (h : ¬ Route.levels rule.route <+: Route.levels page.route) :
        rule.covers page.route = false := by
      rw [← Bool.not_eq_true]
      exact mt (covers_iff_levels (accepted rule hr) canonical).1 h
    constructor
    · intro before rule after rules starts noEarlier
      have listed (earlier : SectionRule) (he : earlier ∈ before ++ rule :: after) :
          earlier ∈ e.options.sections := rules ▸ he
      refine SiteIndex.belongsTo_of_covers hp rules ?_ fun earlier he => ?_
      · exact (covers_iff_levels (accepted rule (listed rule (by simp))) canonical).2 starts
      · exact apart (listed earlier (by simp [he])) (noEarlier earlier he)
    · intro unmatched
      exact SiteIndex.belongsTo_of_not_covers hp fun rule hr => apart hr (unmatched rule hr)

private theorem config_docsTree (aliases : AliasTable) :
    (Page.analyze aliases (FileTree.docsTree "export const llmstxt = 'T'")
      ⟨"/docs", ⟨"/app/docs/page.js"⟩⟩).config = some (.str "T") := by
  let page : Script.Module := ⟨[.exportVariables [⟨some "llmstxt", some (.str "T")⟩]]⟩
  have located : (FileTree.docsTree "export const llmstxt = 'T'").locate ⟨"/app/docs/page.js"⟩ =
      .ok (["app", "docs", "page.js"], .file "export const llmstxt = 'T'".toUTF8) := by
    have steps : FileTree.steps ⟨"/app/docs/page.js"⟩ =
        [.root, .name "app", .name "docs", .name "page.js"] := rfl
    have nonempty : Path.chars ⟨"/app/docs/page.js"⟩ ≠ [] := by decide
    simp [FileTree.locate, steps, nonempty, FileTree.follow, FileTree.docsTree, Node.get?,
      Node.child?]
  have dialect : Script.Dialect.ofPath ⟨"/app/docs/page.js"⟩ = ⟨false, true⟩ := by decide
  have parsed : Script.Module.parse? ⟨false, true⟩ "export const llmstxt = 'T'" = some page := by
    decide +kernel
  have read : (FileTree.docsTree "export const llmstxt = 'T'").readModule ⟨"/app/docs/page.js"⟩ =
      .ok page :=
    FileTree.readModule_of_readText (FileTree.readText_of_locate located) dialect parsed
  have origin : page.exportOrigin? Page.primaryExport = some (.expression (.str "T")) := rfl
  unfold Page.analyze
  simp only [read, Page.recordOf, Codebase.exportValue?, origin, Codebase.originValue?,
    Codebase.valueOf]
  rfl

/-- The rule for documents covers them and what is below them, but not a route that goes on within
its segment, and the page about documents is in its section. -/
theorem SectionRule.covers_by_levels_docs :
    let docs : SectionRule := ⟨"Docs", "/docs"⟩
    let guide : SectionRule := ⟨"Guide", "/docs/guide"⟩
    let tree := FileTree.docsTree "export const llmstxt = 'T'"
    let e := Engine.docsEngine "export const llmstxt = 'T'"
    let page := Page.analyze e.aliases tree ⟨"/docs", ⟨"/app/docs/page.js"⟩⟩
    let other := Page.analyze e.aliases tree ⟨"/docsite", ⟨"/pages/docsite.js"⟩⟩
    docs.IsAccepted ∧ guide.IsAccepted ∧ docs.covers "/docs" = true ∧
    docs.covers "/docs/guide" = true ∧ docs.covers "/docsite" = false ∧
    (guide.covers "/docs/guide/start" = true → docs.covers "/docs/guide/start" = true) ∧
    Options.ofWords ["--root", "/", "--app-dir", "app", "--pages-dir", "pages",
      "--section", "Docs=/docs"] = .ok Engine.docsOptions ∧
    Engine.ofOptions tree Engine.docsOptions = .ok e ∧
    page ∈ e.discover tree ∧ other ∈ e.discover tree ∧
    SiteIndex.keeps e.options page = true ∧
    SiteIndex.BelongsTo e.options (e.discover tree) page 1 "Docs" ∧
    SiteIndex.BelongsTo e.options (e.discover tree) other 0 "Main Pages" := by
  intro docs guide tree e page other
  have docs_accepted : docs.IsAccepted := ⟨"Docs=/docs", rfl⟩
  have guide_accepted : guide.IsAccepted := ⟨"Guide=/docs/guide/", rfl⟩
  have canonical : Route.IsCanonical "/docs" ∧ Route.IsCanonical "/docs/guide" := by decide
  have words : Options.ofWords ["--root", "/", "--app-dir", "app", "--pages-dir", "pages",
      "--section", "Docs=/docs"] = .ok Engine.docsOptions := rfl
  have page_route : page.route = "/docs" := (Page.outcome_analyze e.aliases tree _).page_eq.1
  have other_route : other.route = "/docsite" := (Page.outcome_analyze e.aliases tree _).page_eq.1
  have listed : e.discover tree = (e.pageFiles tree).map (Page.analyze e.aliases tree) := rfl
  rw [Engine.pageFiles_docsTree] at listed
  have found : page ∈ e.discover tree ∧ other ∈ e.discover tree := by
    rw [listed]
    exact ⟨List.mem_map_of_mem (by simp), List.mem_map_of_mem (by simp)⟩
  have kept : SiteIndex.keeps e.options page = true := by
    have config : page.config = some (.str "T") := config_docsTree e.aliases
    have given : e.options.skipMetadataFallback = false := rfl
    simp [SiteIndex.keeps, config, given]
  obtain ⟨rules, accepted, filed⟩ := covers_by_levels
  obtain ⟨covers, within, longer, below⟩ := rules docs docs_accepted
  have own : docs.covers "/docs" = true := (covers _ canonical.1).2 List.prefix_rfl
  have starts : Route.levels docs.route <+: Route.levels page.route :=
    page_route ▸ List.prefix_rfl
  obtain ⟨first, -⟩ := filed e tree (accepted _ _ words) page found.1
  have opened : Engine.ofOptions tree Engine.docsOptions = .ok e := Engine.ofOptions_docsTree _
  refine ⟨docs_accepted, guide_accepted, own, ?_, ?_, ?_, words, opened, found.1, found.2, kept,
    ?_, ?_⟩
  · exact longer _ _ canonical.1 canonical.2 (by decide) own
  · exact within (by decide) "/docsite" 'i' "te".toList (by decide) (by decide)
  · exact below guide guide_accepted (by decide) _
  · exact first [] docs [] rfl starts (List.forall_mem_nil _)
  · refine (filed e tree (accepted _ _ words) other found.2).2 fun rule hr => ?_
    obtain rfl : rule = docs := List.mem_singleton.1 hr
    rw [other_route]
    decide

end PageIndex
