import Mathlib.Data.List.Perm.Basic
import Mathlib.Data.List.TakeWhile
import PageIndex.Site.Index

/-!
# Pages filed into sections

A site index files each page that it keeps into one section: that of the first rule that covers its
route, or the one in front of all others when no rule does. `FiledUnder` says this of a route
without searching. The main statement is `ofPages_files_pages`: the sections hold groups of the
pages, no page is lost or filed twice, and no section changes the order of its pages.
-/

namespace PageIndex

/-- A rule covers its own route and every route that goes on after it with a slash. The rule of the
root covers every route. -/
theorem SectionRule.covers_iff {rule : SectionRule} {route : String} :
    rule.covers route = true ↔
      rule.route = "/" ∨ route = rule.route ∨
        ∃ rest, route.toList = rule.route.toList ++ '/' :: rest := by
  rw [covers]
  by_cases hr : rule.route = "/"
  · simp [hr]
  rw [if_neg hr]
  cases hd : Text.dropStart? rule.route.toList route.toList with
  | none =>
    have apart (rest : List Char) : route.toList ≠ rule.route.toList ++ rest := fun h => by
      rw [Text.dropStart?_eq_some_iff.2 h] at hd
      cases hd
    have other : route ≠ rule.route := fun h => apart [] (by rw [h, List.append_nil])
    simp [hr, other, apart]
  | some rest =>
    rw [Text.dropStart?_eq_some_iff] at hd
    have same : route = rule.route ↔ rest = [] := by
      rw [← String.toList_inj, hd, List.append_right_eq_self]
    rw [same, hd]
    cases rest with
    | nil => simp
    | cons c rest => simp [hr]

namespace PageRecord

/-- Whether the configuration of a page is an object with the given text under the given name. -/
def HasText (page : PageRecord) (key text : String) : Prop :=
  ∃ members, page.config = some (.obj members) ∧ members.lookup key = some (.str text)

/-- A text of the configuration is found exactly when there is one. -/
theorem configText?_eq_some_iff {page : PageRecord} {key text : String} :
    page.configText? key = some text ↔ page.HasText key text := by
  simp only [configText?, HasText, Option.bind_eq_some_iff]
  constructor
  · rintro ⟨config, hc, found, hf, ht⟩
    cases config with
    | obj members =>
      cases found with
      | str s =>
        cases ht
        exact ⟨members, hc, hf⟩
      | _ => cases ht
    | _ => cases hf
  · rintro ⟨members, hc, hl⟩
    exact ⟨.obj members, hc, .str text, hl, rfl⟩

end PageRecord

namespace SiteIndex

variable {o : Options} {pages : List PageRecord}

/-- Whether a route is filed into the section of the given number: number 0 when no rule covers it,
and otherwise one more than the position of the first rule that does. -/
def FiledUnder (rules : List SectionRule) (route : String) : Nat → Prop
  | 0 => ∀ rule ∈ rules, rule.covers route = false
  | i + 1 => ∃ rule, rules[i]? = some rule ∧ rule.covers route = true ∧
      ∀ earlier ∈ rules.take i, earlier.covers route = false

/-- A route is filed into the section of the number that is computed for it. -/
theorem filedUnder_slot (rules : List SectionRule) (route : String) :
    FiledUnder rules route (slot rules route) := by
  rw [slot]
  cases hf : rules.findIdx? (·.covers route) with
  | none => exact List.findIdx?_eq_none_iff.1 hf
  | some i =>
    obtain ⟨bound, covered, before⟩ := List.findIdx?_eq_some_iff_getElem.1 hf
    refine ⟨rules[i], List.getElem?_eq_getElem bound, covered, fun earlier he => ?_⟩
    obtain ⟨j, hj, rfl⟩ := List.mem_take_iff_getElem.1 he
    simpa using before j (by omega)

private theorem FiledUnder.not_lt {rules : List SectionRule} {route : String} {a b : Nat}
    (h : FiledUnder rules route a) (h' : FiledUnder rules route b) : ¬a < b := by
  intro hlt
  obtain ⟨j, rfl⟩ := Nat.exists_eq_add_one_of_ne_zero (Nat.ne_zero_of_lt hlt)
  obtain ⟨later, hl, covered, before⟩ := h'
  cases a with
  | zero =>
    rw [h later (List.mem_of_getElem? hl)] at covered
    cases covered
  | succ i =>
    obtain ⟨rule, hr, covers, -⟩ := h
    have earlier : rule ∈ rules.take j :=
      List.mem_of_getElem? ((List.getElem?_take_of_lt (by omega)).trans hr)
    rw [before rule earlier] at covers
    cases covers

/-- The section of the computed number is the only one under which a route is filed. -/
theorem slot_eq_iff {rules : List SectionRule} {route : String} {number : Nat} :
    slot rules route = number ↔ FiledUnder rules route number := by
  constructor
  · rintro rfl
    exact filedUnder_slot rules route
  · intro h
    have computed := filedUnder_slot rules route
    exact Nat.le_antisymm (Nat.le_of_not_lt (h.not_lt computed))
      (Nat.le_of_not_lt (computed.not_lt h))

instance (rules : List SectionRule) (route : String) (number : Nat) :
    Decidable (FiledUnder rules route number) :=
  decidable_of_iff _ slot_eq_iff

/-- Every route is filed into one of the sections. -/
theorem slot_lt (rules : List SectionRule) (route : String) :
    slot rules route < rules.length + 1 := by
  rw [slot]
  split
  · exact Nat.succ_pos _
  · next i hf => exact Nat.succ_lt_succ (List.findIdx?_eq_some_iff_getElem.1 hf).1

/-- A base address is what is kept of it and the slashes that are taken off its end. -/
theorem exists_slashes_of_trimBase (baseUrl : String) :
    (∃ count, baseUrl.toList = (trimBase baseUrl).toList ++ List.replicate count '/') ∧
      (trimBase baseUrl).toList.getLast? ≠ some '/' := by
  have kept : (trimBase baseUrl).toList =
      (baseUrl.toList.reverse.dropWhile (· == '/')).reverse := by
    rw [trimBase, String.toList_ofList]
  rw [kept]
  constructor
  · refine ⟨(baseUrl.toList.reverse.takeWhile (· == '/')).length, ?_⟩
    have slashes : baseUrl.toList.reverse.takeWhile (· == '/') =
        List.replicate (baseUrl.toList.reverse.takeWhile (· == '/')).length '/' :=
      List.eq_replicate_iff.2 ⟨rfl, fun c hc => by simpa using List.mem_takeWhile_imp hc⟩
    rw [← List.reverse_replicate, ← slashes, ← List.reverse_append,
      List.takeWhile_append_dropWhile, List.reverse_reverse]
  · rw [List.getLast?_reverse]
    intro h
    have first := List.head?_dropWhile_not (· == '/') baseUrl.toList.reverse
    rw [h] at first
    simp at first

/-- The pages that are kept and filed into the section of the given number. -/
def group (o : Options) (pages : List PageRecord) (number : Nat) : List PageRecord :=
  pages.filter fun page => keeps o page && slot o.sections page.route == number

/-- One more page goes into its own group and no other. -/
theorem group_cons (page : PageRecord) (number : Nat) :
    group o (page :: pages) number =
      (if keeps o page = true ∧ slot o.sections page.route = number then [page] else []) ++
        group o pages number := by
  simp only [group, List.filter_cons, Bool.and_eq_true, beq_iff_eq]
  split <;> rfl

private theorem flatMap_ite_eq_nil {α : Type} (a : α) {i : Nat} {numbers : List Nat}
    (absent : i ∉ numbers) :
    (numbers.flatMap fun number => if i = number then [a] else []) = [] := by
  rw [List.flatMap_eq_nil_iff]
  intro number hn
  have apart : i ≠ number := fun h => absent (h ▸ hn)
  exact if_neg apart

private theorem flatMap_ite_eq_singleton {α : Type} (a : α) {i : Nat} {numbers : List Nat}
    (once : numbers.Nodup) (present : i ∈ numbers) :
    (numbers.flatMap fun number => if i = number then [a] else []) = [a] := by
  induction numbers with
  | nil => cases present
  | cons number rest ih =>
    obtain ⟨fresh, once⟩ := List.nodup_cons.1 once
    rw [List.flatMap_cons]
    by_cases h : i = number
    · subst h
      rw [if_pos rfl, flatMap_ite_eq_nil a fresh, List.append_nil]
    · rw [if_neg h, ih once ((List.mem_cons.1 present).resolve_left h), List.nil_append]

/-- The groups together have each page that is kept once, and no other. -/
theorem flatMap_group_perm (o : Options) (pages : List PageRecord) :
    ((List.range (o.sections.length + 1)).flatMap (group o pages)).Perm
      (pages.filter (keeps o)) := by
  induction pages with
  | nil => simp [group]
  | cons page pages ih =>
    rw [List.filter_cons]
    simp only [funext (group_cons page)]
    refine (List.flatMap_append_perm _ _ _).symm.trans ?_
    cases keeps o page with
    | false => simpa [List.flatMap_eq_nil_iff.2] using ih
    | true =>
      simp only [true_and, if_true]
      rw [flatMap_ite_eq_singleton page List.nodup_range
        (List.mem_range.2 (slot_lt o.sections page.route))]
      exact ih.cons page

private theorem zipIdx_titles (rules : List SectionRule) :
    (titles rules).zipIdx = (titles rules).zip (List.range (rules.length + 1)) := by
  have numbers : (titles rules).length = rules.length + 1 := by
    rw [titles, List.length_cons, List.length_map]
  rw [List.zipIdx_eq_zip_range', numbers, ← List.range_eq_range']

/-- The sections of an index are made of the titles and the groups, one after the other, and those
without links are left out. -/
theorem sections_ofPages (o : Options) (pages : List PageRecord) :
    (ofPages o pages).sections =
      (List.zipWith (fun title pages => (⟨title, pages.map (link o)⟩ : Section)) (titles o.sections)
        ((List.range (o.sections.length + 1)).map (group o pages))).filter (!·.links.isEmpty) := by
  rw [ofPages, zipIdx_titles, List.zip, List.map_zipWith, List.zipWith_map_right]
  rfl

private theorem flatMap_filter_isEmpty (sections : List Section) :
    (sections.filter (!·.links.isEmpty)).flatMap (·.links) = sections.flatMap (·.links) := by
  induction sections with
  | nil => rfl
  | cons s rest ih =>
    rw [List.flatMap_cons, ← ih, List.filter_cons]
    cases hs : s.links.isEmpty with
    | false => rw [Bool.not_false, if_pos rfl, List.flatMap_cons]
    | true =>
      rw [Bool.not_true, if_neg Bool.false_ne_true, List.isEmpty_iff.1 hs, List.nil_append]

/-- The links of an index are those to the pages that are kept, one each. -/
theorem flatMap_links_perm (o : Options) (pages : List PageRecord) :
    ((ofPages o pages).sections.flatMap (·.links)).Perm
      ((pages.filter (keeps o)).map (link o)) := by
  have links : (ofPages o pages).sections.flatMap (·.links) =
      ((List.range (o.sections.length + 1)).flatMap (group o pages)).map (link o) := by
    rw [ofPages, flatMap_filter_isEmpty, zipIdx_titles, List.flatMap_map, List.map_flatMap]
    -- The links of a section depend on its number only.
    show (List.zip _ _).flatMap (fun t => (group o pages t.2).map (link o)) = _
    rw [← List.flatMap_map Prod.snd (fun number => (group o pages number).map (link o)),
      List.map_snd_zip (by simp [titles])]
  rw [links]
  exact (flatMap_group_perm o pages).map (link o)

/-- A section that is listed has a link. -/
theorem links_ne_nil {s : Section} (h : s ∈ (ofPages o pages).sections) : s.links ≠ [] := by
  simpa using (List.mem_filter.1 h).2

/-- A page is kept when it has a configuration, unless that was made up and such pages are
skipped. -/
theorem keeps_iff {page : PageRecord} :
    keeps o page = true ↔
      page.config ≠ none ∧ ¬(o.skipMetadataFallback = true ∧ page.usesFallback = true) := by
  rw [keeps, Bool.and_eq_true, Option.isSome_iff_ne_none, Bool.not_eq_true', ← Bool.and_eq_true,
    Bool.not_eq_true]

/-- The title of a link is that of the configuration, or else the label of the route. -/
theorem link_title_eq_iff {page : PageRecord} {title : String} :
    (link o page).title = title ↔
      page.HasText "title" title ∨
        (∀ text, ¬page.HasText "title" text) ∧ title = Route.label page.route := by
  simp only [link, ← PageRecord.configText?_eq_some_iff]
  cases page.configText? "title" with
  | none => simp [eq_comm]
  | some text => simp

/-- The description of a link is that of the configuration. -/
theorem link_description_eq_some_iff {page : PageRecord} {text : String} :
    (link o page).description = some text ↔ page.HasText "description" text :=
  PageRecord.configText?_eq_some_iff

private theorem keeps_skip (page : PageRecord) :
    keeps { o with skipMetadataFallback := true } page =
      (!page.usesFallback && keeps { o with skipMetadataFallback := false } page) := by
  simp [keeps, Bool.and_comm]

/-- Skipping the pages whose configuration was made up gives the index of the other pages. -/
theorem ofPages_skip (o : Options) (pages : List PageRecord) :
    ofPages { o with skipMetadataFallback := true } pages =
      ofPages { o with skipMetadataFallback := false } (pages.filter (!·.usesFallback)) := by
  have same (number : Nat) (title : String) :
      sectionAt { o with skipMetadataFallback := true } pages number title =
        sectionAt { o with skipMetadataFallback := false } (pages.filter (!·.usesFallback)) number
          title := by
    simp only [sectionAt, List.filter_filter, keeps_skip]
    congr 2
    refine List.filter_congr fun page _ => ?_
    rw [Bool.and_assoc, Bool.and_comm]
  simp only [ofPages, same]

/-- The sections of an index hold the pages that are kept, in groups: each of these pages in the
group of its section, in the order of the pages, and as often as it is there. The groups stand under
their titles in the order of the rules, and those without pages are left out. -/
theorem ofPages_files_pages (o : Options) (pages : List PageRecord) :
    (∀ page, keeps o page = true ↔
      page.config ≠ none ∧ ¬(o.skipMetadataFallback = true ∧ page.usesFallback = true)) ∧
    (∀ (rule : SectionRule) (route : String), rule.covers route = true ↔
      rule.route = "/" ∨ route = rule.route ∨
        ∃ rest, route.toList = rule.route.toList ++ '/' :: rest) ∧
    (∃ groups : List (List PageRecord),
      groups.length = o.sections.length + 1 ∧
      (∀ number found, groups[number]? = some found ↔ number ≤ o.sections.length ∧
        found = pages.filter fun page => keeps o page ∧ FiledUnder o.sections page.route number) ∧
      groups.flatten.Perm (pages.filter (keeps o)) ∧
      (ofPages o pages).sections =
        (List.zipWith (fun title found => (⟨title, found.map (link o)⟩ : Section))
          ("Main Pages" :: o.sections.map (·.title)) groups).filter (!·.links.isEmpty)) ∧
    ((ofPages o pages).sections.flatMap (·.links)).Perm ((pages.filter (keeps o)).map (link o)) ∧
    (∀ s ∈ (ofPages o pages).sections, s.links ≠ []) ∧
    (∃ base, (∃ count, o.baseUrl.toList = base ++ List.replicate count '/') ∧
      base.getLast? ≠ some '/' ∧
      ∀ page, (link o page).url.toList = base ++ page.route.toList) ∧
    (∀ page title, (link o page).title = title ↔ page.HasText "title" title ∨
      (∀ text, ¬page.HasText "title" text) ∧ title = Route.label page.route) ∧
    (∀ page text, (link o page).description = some text ↔ page.HasText "description" text) ∧
    ofPages { o with skipMetadataFallback := true } pages =
      ofPages { o with skipMetadataFallback := false } (pages.filter (!·.usesFallback)) := by
  have filed (number : Nat) : group o pages number =
      pages.filter fun page => keeps o page ∧ FiledUnder o.sections page.route number := by
    refine List.filter_congr fun page _ => ?_
    rw [Bool.eq_iff_iff]
    simp only [Bool.and_eq_true, beq_iff_eq, decide_eq_true_eq, slot_eq_iff]
  obtain ⟨slashes, bare⟩ := exists_slashes_of_trimBase o.baseUrl
  refine ⟨fun page => keeps_iff, fun rule route => rule.covers_iff,
    ⟨(List.range (o.sections.length + 1)).map (group o pages), ?_, ?_, ?_, ?_⟩,
    flatMap_links_perm o pages, fun s hs => links_ne_nil hs, ⟨_, slashes, bare, ?_⟩,
    fun page title => link_title_eq_iff, fun page text => link_description_eq_some_iff,
    ofPages_skip o pages⟩
  · rw [List.length_map, List.length_range]
  · intro number found
    rw [List.getElem?_map, ← filed, Option.map_eq_some_iff]
    simp only [List.getElem?_eq_some_iff, List.length_range, List.getElem_range, exists_prop]
    constructor
    · rintro ⟨_, ⟨bound, rfl⟩, rfl⟩
      exact ⟨Nat.le_of_lt_succ bound, rfl⟩
    · rintro ⟨bound, rfl⟩
      exact ⟨number, ⟨Nat.lt_succ_of_le bound, rfl⟩, rfl⟩
  · exact flatMap_group_perm o pages
  · exact sections_ofPages o pages
  · exact fun page => String.toList_append

end SiteIndex
end PageIndex
