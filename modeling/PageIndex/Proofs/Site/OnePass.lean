import PageIndex.Proofs.Site.Partition

/-!
# The sections of a site in one pass

The site index is made in one pass over the pages (`build_site_config`): there is a group of links
for each section, all of them empty at the start, and the link to each page that is kept is pushed
to the end of the group of its section. `push` is a step of this pass, and a group that is pushed to
is always there (`slot_lt_length_foldl_push`). The main statement is `sections_eq_pass`: the groups
that are left at the end, with their titles, are the sections of the index.
-/

namespace PageIndex

namespace SiteIndex

/-- A step of the pass: the link to a page that is kept goes to the end of its group. -/
def push (o : Options) (groups : List (List Link)) (page : PageRecord) : List (List Link) :=
  if keeps o page then groups.modify (slot o.sections page.route) (· ++ [link o page]) else groups

/-- The groups of links after a pass over the pages. -/
def pass (o : Options) (pages : List PageRecord) : List (List Link) :=
  pages.foldl (push o) (List.replicate (o.sections.length + 1) [])

variable {o : Options} {groups : List (List Link)}

/-- A step makes no group and removes none. -/
theorem length_push (page : PageRecord) : (push o groups page).length = groups.length := by
  rw [push]
  split
  · exact List.length_modify _ _ _
  · rfl

/-- What a step does to each group: the group of the page gets its link, and the others stay. -/
theorem getElem?_push (page : PageRecord) (number : Nat) :
    (push o groups page)[number]? =
      groups[number]?.map (· ++ (group o [page] number).map (link o)) := by
  rw [push, group_cons]
  by_cases kept : keeps o page = true
  · rw [if_pos kept, List.getElem?_modify]
    by_cases own : slot o.sections page.route = number
    · simp [kept, own, group]
    · simp [own, group]
  · simp [kept, group]

/-- Steps make no group and remove none. -/
theorem length_foldl_push (pages : List PageRecord) :
    (pages.foldl (push o) groups).length = groups.length := by
  induction pages generalizing groups with
  | nil => rfl
  | cons page rest ih => rw [List.foldl_cons, ih, length_push]

/-- A page is never pushed past the groups, whichever pages came before. -/
theorem slot_lt_length_foldl_push (before : List PageRecord) (page : PageRecord) :
    slot o.sections page.route < (pass o before).length := by
  rw [pass, length_foldl_push, List.length_replicate]
  exact slot_lt o.sections page.route

/-- What steps do to each group: it gets the links to its pages, in their order. -/
theorem getElem?_foldl_push (pages : List PageRecord) (number : Nat) :
    (pages.foldl (push o) groups)[number]? =
      groups[number]?.map (· ++ (group o pages number).map (link o)) := by
  induction pages generalizing groups with
  | nil => simp [group]
  | cons page rest ih =>
    have parts : group o (page :: rest) number = group o [page] number ++ group o rest number :=
      List.filter_append [page] rest
    rw [List.foldl_cons, ih, getElem?_push, parts, Option.map_map]
    simp [Function.comp_def]

/-- A pass leaves the links to the pages of each section in its group. -/
theorem pass_eq (o : Options) (pages : List PageRecord) :
    pass o pages =
      (List.range (o.sections.length + 1)).map fun number =>
        (group o pages number).map (link o) := by
  apply List.ext_getElem?
  intro number
  rw [pass, getElem?_foldl_push, List.getElem?_replicate, List.getElem?_map]
  by_cases h : number < o.sections.length + 1
  · rw [if_pos h, List.getElem?_range h]
    simp
  · rw [if_neg h, List.getElem?_eq_none (by simpa using h)]
    simp

/-- The sections of an index are the titles and the groups that the pass leaves, one after the
other, and those without links are left out. -/
theorem sections_eq_pass (o : Options) (pages : List PageRecord) :
    (ofPages o pages).sections =
      (((titles o.sections).zip (pass o pages)).filter fun s => !s.2.isEmpty).map
        fun s => ⟨s.1, s.2⟩ := by
  have whole (titles : List String) (groups : List (List Link)) :
      (titles.zip groups).map (fun s => (⟨s.1, s.2⟩ : Section)) =
        List.zipWith Section.mk titles groups := by
    rw [List.zip, List.map_zipWith]
  have filled := List.filter_map (f := fun s : String × List Link => (⟨s.1, s.2⟩ : Section))
    (p := (!·.links.isEmpty)) (l := (titles o.sections).zip (pass o pages))
  rw [sections_ofPages]
  refine Eq.trans ?_ filled
  rw [whole, pass_eq, List.zipWith_map_right, List.zipWith_map_right]

end SiteIndex

end PageIndex
