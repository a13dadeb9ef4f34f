import PageIndex.Proofs.Page.Finding
import PageIndex.Proofs.Report.Layout

/-!
# The totals of the report

The counts of the report test the records in three ways that are apart from each other because a
record that says that its configuration was made up has one (`config_of_mem_discover`). So each
count is the number of pages that are shown with its source (`counts_eq`), and the three of them add
up to the number of pages. The main statement is `totals_add_up`.
-/

namespace PageIndex

/-- A record of a pass that says that its configuration was made up has a configuration. -/
theorem Engine.config_of_mem_discover {e : Engine} {tree : FileTree} {page : PageRecord}
    (h : page ∈ e.discover tree) (madeUp : page.usesFallback = true) :
    page.config.isSome = true := by
  obtain ⟨file, -, rfl⟩ := List.mem_map.1 h
  exact ((Page.outcome_analyze e.aliases tree file).config_of_usesFallback madeUp).1

namespace Report

open Text (ofLines)

/-! ### The counts and the sources -/

/-- Every source is one of the three. -/
theorem Source.count_add (sources : List Source) :
    sources.count .llmstxt + sources.count .metadata + sources.count .none = sources.length := by
  induction sources with
  | nil => rfl
  | cons source rest ih =>
    cases source <;> simp <;> omega

section Counts

variable {pages : List PageRecord}

theorem count_map_ofRecord (source : Source) (pages : List PageRecord) :
    (pages.map Source.ofRecord).count source =
      pages.countP fun page => Source.ofRecord page == source := by
  rw [List.count, List.countP_map]
  rfl

/-- The printed number of warnings is the number of all warnings. -/
theorem warningCount_eq (pages : List PageRecord) :
    warningCount pages = (PageRecord.allWarnings pages).length := by
  have counted (count : Nat) : pages.foldl (fun count page => count + page.warnings.length) count =
      count + (PageRecord.allWarnings pages).length := by
    induction pages generalizing count with
    | nil => rfl
    | cons page rest ih =>
      rw [List.foldl_cons, ih, PageRecord.allWarnings, PageRecord.allWarnings, List.flatMap_cons,
        List.length_append, Nat.add_assoc]
  rw [warningCount, counted, Nat.zero_add]

variable (config : ∀ page ∈ pages, page.usesFallback = true → page.config.isSome = true)
include config

/-- The counts of the report are the numbers of pages with each source. -/
theorem counts_eq :
    primaryCount pages = (pages.map Source.ofRecord).count .llmstxt ∧
      fallbackCount pages = (pages.map Source.ofRecord).count .metadata ∧
      missingCount pages = (pages.map Source.ofRecord).count .none := by
  simp only [count_map_ofRecord]
  refine ⟨List.countP_congr fun page _ => ?_, List.countP_congr fun page hp => ?_,
    List.countP_congr fun page _ => ?_⟩
  · rw [Source.ofRecord]
    cases page.config <;> cases page.usesFallback <;> simp
  · rw [Source.ofRecord]
    cases made : page.usesFallback with
    | false => cases page.config <;> simp
    | true =>
      obtain ⟨given, hg⟩ := Option.isSome_iff_exists.1 (config page hp made)
      simp [hg]
  · rw [Source.ofRecord]
    cases page.config <;> cases page.usesFallback <;> simp

/-- The index has a link for each page with a configuration, unless those that were made up are
skipped. -/
theorem length_links (o : Options) :
    ((SiteIndex.ofPages o pages).sections.flatMap (·.links)).length =
      if o.skipMetadataFallback then primaryCount pages
      else primaryCount pages + fallbackCount pages := by
  rw [(SiteIndex.flatMap_links_perm o pages).length_eq, List.length_map,
    ← List.countP_eq_length_filter]
  cases skip : o.skipMetadataFallback with
  | true =>
    rw [if_pos rfl, primaryCount]
    apply List.countP_congr
    intro page _
    simp [SiteIndex.keeps, skip]
  | false =>
    have kept : pages.countP (SiteIndex.keeps o) =
        pages.countP fun page => decide ¬page.config.isNone = true := by
      apply List.countP_congr
      intro page _
      simp [SiteIndex.keeps, skip, Option.isSome_iff_ne_none]
    have apart := List.length_eq_countP_add_countP (·.config.isNone) (l := pages)
    have all := Source.count_add (pages.map Source.ofRecord)
    obtain ⟨primary, fallback, missing⟩ := counts_eq config
    rw [← primary, ← fallback, ← missing, List.length_map, missingCount] at all
    rw [if_neg Bool.false_ne_true, kept]
    omega

end Counts

/-! ### The sources that are shown -/

/-- Whether the block of a page shows a source: in the line below the header, behind the mark. -/
def ShowsSource (root : Path) (page : PageRecord) (block : String) (source : Source) : Prop :=
  ∃ mark rest, (mark = teeMark ∨ mark = closingMark) ∧
    block = page.route ++ " " ++ page.path.display root ++ "\n" ++
      mark ++ "  source: " ++ source.name ++ "\n" ++ rest

variable {root : Path} {page : PageRecord} {block : String} {source other : Source}

/-- Marks are of one length. -/
theorem length_mark {mark : String} (h : mark = teeMark ∨ mark = closingMark) :
    mark.toList.length = 3 := by
  obtain rfl | rfl := h <;> simp [teeMark, closingMark]

theorem Source.name_injective (same : source.name = other.name) : source = other := by
  revert same
  cases source <;> cases other <;> decide

/-- A block does not show two sources. -/
theorem ShowsSource.eq (h : ShowsSource root page block source)
    (h' : ShowsSource root page block other) : source = other := by
  obtain ⟨mark, rest, isMark, rfl⟩ := h
  obtain ⟨mark', rest', isMark', same⟩ := h'
  have alone (s : Source) : '\n' ∉ s.name.toList := by
    cases s <;> exact notMem_of_shown (by decide) rfl
  have long : mark.toList.length = mark'.toList.length := by
    rw [length_mark isMark, length_mark isMark']
  rw [← String.toList_inj] at same
  simp only [String.toList_append, List.append_assoc, List.append_cancel_left_eq] at same
  have names := List.append_cancel_left (List.append_inj same long).2
  apply Source.name_injective
  rw [← String.toList_inj]
  exact Text.eq_of_append_cons_eq (alone source) (alone other) names

/-- The first line about a page tells its source. -/
theorem exists_detailTexts_cons (page : PageRecord) :
    ∃ rest, detailTexts page =
      (markAt (details page).length 0 ++ ("  source: " ++ (Source.ofRecord page).name)) ::
        rest := by
  have more := length_warnings_lt page
  have body : bodyAt (details page).length page.warnings.length 0
      ("source: " ++ (Source.ofRecord page).name) =
        "  source: " ++ (Source.ofRecord page).name := by
    rw [bodyAt, if_neg (by omega), ← String.append_assoc]
    rfl
  rw [← body]
  exact ⟨_, rfl⟩

/-- The block of a page shows the source of its configuration and no other. -/
theorem showsSource_pageBlock_iff :
    ShowsSource root page (plainText (pageBlock root page)) source ↔
      source = Source.ofRecord page := by
  have shown : ShowsSource root page (plainText (pageBlock root page)) (Source.ofRecord page) := by
    obtain ⟨rest, first⟩ := exists_detailTexts_cons page
    have isMark : markAt (details page).length 0 = teeMark ∨
        markAt (details page).length 0 = closingMark := by
      rw [markAt]
      split
      · exact .inr rfl
      · exact .inl rfl
    refine ⟨_, ofLines (rest ++ [""]), isMark, ?_⟩
    rw [plainText_pageBlock, blockLines, first, List.cons_append, ofLines, ofLines]
    simp only [String.append_assoc]
  constructor
  · intro h
    exact h.eq shown
  · rintro rfl
    exact shown

/-- The blocks of a report stand one after the other. -/
theorem plainText_flatMap_pageBlock (root : Path) (pages : List PageRecord) :
    plainText (pages.flatMap (pageBlock root)) =
      String.join (pages.map fun page => plainText (pageBlock root page)) := by
  induction pages with
  | nil => rfl
  | cons page rest ih =>
    rw [List.flatMap_cons, plainText_append, ih, List.map_cons, String.join_cons]

/-- A report of a pass over a project with pages shows a source for each page. The three counts of
its totals are the numbers of pages that are shown with each source, they add up to the number of
pages at its start, which is the number of records, and the number of warnings is that of all
warnings. The index of the same pages has a link for each page that is counted as one with a
configuration of its own or as one with metadata, or for the first ones only when the others are
skipped. -/
theorem totals_add_up (e : Engine) (t : FileTree) (nonempty : e.discover t ≠ []) :
    ∃ (blocks : List (Source × String)) (primary fallback missing : Nat),
      List.Forall₂ (fun page block =>
        ∀ source, ShowsSource e.root page block.2 source ↔ source = block.1)
        (e.discover t) blocks ∧
      primary = (blocks.map (·.1)).count .llmstxt ∧
      fallback = (blocks.map (·.1)).count .metadata ∧
      missing = (blocks.map (·.1)).count .none ∧
      primary + fallback + missing = (e.discover t).length ∧
      spansText false (ofPages e.root (e.discover t)) =
        ofLines ["● Discovered " ++ toString (e.discover t).length ++ " pages", ""] ++
        String.join (blocks.map (·.2)) ++
        ofLines [String.ofList (List.replicate 60 '─'), "Summary",
          "  llmstxt exports: " ++ toString primary,
          "  metadata fallbacks: " ++ toString fallback,
          "  without config: " ++ toString missing,
          "  warnings: " ++ toString (PageRecord.allWarnings (e.discover t)).length] ∧
      ((e.site (e.discover t)).sections.flatMap (·.links)).length =
        if e.options.skipMetadataFallback then primary else primary + fallback := by
  have config : ∀ page ∈ e.discover t, page.usesFallback = true → page.config.isSome = true :=
    fun page => Engine.config_of_mem_discover
  generalize e.discover t = pages at nonempty config ⊢
  obtain ⟨primary, fallback, missing⟩ := counts_eq config
  have sources : (pages.map fun page =>
      (Source.ofRecord page, plainText (pageBlock e.root page))).map (·.1) =
        pages.map Source.ofRecord := by
    rw [List.map_map]
    rfl
  refine ⟨pages.map fun page => (Source.ofRecord page, plainText (pageBlock e.root page)),
    primaryCount pages, fallbackCount pages, missingCount pages, ?_, ?_, ?_, ?_, ?_, ?_,
    length_links config e.options⟩
  · rw [List.forall₂_map_right_iff, List.forall₂_same]
    intro page _ source
    exact showsSource_pageBlock_iff
  · rw [sources, primary]
  · rw [sources, fallback]
  · rw [sources, missing]
  · rw [primary, fallback, missing, Source.count_add, List.length_map]
  · have filled : pages.isEmpty = false := List.isEmpty_eq_false_iff.2 nonempty
    have blocks := plainText_flatMap (plainText_pageBlock e.root) pages
    have texts : (pages.map fun page =>
        (Source.ofRecord page, plainText (pageBlock e.root page))).map (·.2) =
          pages.map fun page => plainText (pageBlock e.root page) := by
      rw [List.map_map]
      rfl
    calc spansText false (ofPages e.root pages)
        = ofLines ((["● Discovered " ++ toString pages.length ++ " pages", ""] ++
            pages.flatMap (blockLines e.root)) ++ totalLines pages) := by
          rw [spansText, if_neg Bool.false_ne_true, ofPages, filled, if_neg Bool.false_ne_true,
            plainText_tree, List.append_assoc]
          rfl
      _ = _ := by
          rw [Text.ofLines_append, Text.ofLines_append, ← blocks, plainText_flatMap_pageBlock,
            texts, totalLines, warningCount_eq]

/-- The totals of the project with documents, which has six pages. -/
theorem totals_add_up_docs :
    let t := FileTree.docsTree "export const llmstxt = 'T'"
    let e := Engine.docsEngine "export const llmstxt = 'T'"
    Engine.ofOptions t Engine.docsOptions = .ok e ∧ e.discover t ≠ [] ∧
    ∃ (blocks : List (Source × String)) (primary fallback missing : Nat),
      List.Forall₂ (fun page block =>
        ∀ source, ShowsSource e.root page block.2 source ↔ source = block.1)
        (e.discover t) blocks ∧
      primary = (blocks.map (·.1)).count .llmstxt ∧
      fallback = (blocks.map (·.1)).count .metadata ∧
      primary + fallback + missing = 6 ∧
      ((e.site (e.discover t)).sections.flatMap (·.links)).length = primary + fallback := by
  intro t e
  have count : (e.discover t).length = 6 := by
    rw [Engine.discover, List.length_map, Engine.pageFiles_docsTree]
    rfl
  have filled : e.discover t ≠ [] := by
    rw [← List.length_pos_iff, count]
    decide
  obtain ⟨blocks, primary, fallback, missing, shown, hp, hf, -, sum, -, links⟩ :=
    totals_add_up e t filled
  exact ⟨Engine.ofOptions_docsTree _, filled, blocks, primary, fallback, missing, shown, hp, hf,
    sum.trans count, links⟩

end Report

end PageIndex
