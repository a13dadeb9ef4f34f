import PageIndex.Proofs.Route.Canonical

/-!
# The levels of a route

A route goes down from the root level by level: its levels are the segments after the slash at its
start, and the root has none. Segments without a slash are the levels of the route that is made of
them (`levels_ofSegments`), so a canonical route is known by its levels (`levels_inj`). A route that
is made of names, such as those of directories, has its canonical form when the names `index` are
taken off its end (`normalize_ofNames`).
-/

namespace PageIndex.Route

/-- Whether a route is its own canonical form. -/
def IsCanonical (route : String) : Prop :=
  normalize route = route

instance (route : String) : Decidable (IsCanonical route) :=
  inferInstanceAs (Decidable (_ = _))

/-- The segments of a route after the slash at its start. The root has none. -/
def levels (route : String) : List (List Char) :=
  if route = "/" then [] else Text.splitOn '/' route.toList.tail

variable {route other : String} {segments : List (List Char)}

/-- A canonical form is canonical. -/
theorem isCanonical_normalize (route : String) : IsCanonical (normalize route) := by
  rw [IsCanonical, normalize_eq_iff, toList_normalize, keptSegments_normalizeChars]

/-- Segments are the levels of the route that is made of them. A single empty segment makes the
root, which has no levels. -/
theorem levels_ofSegments (alone : ∀ segment ∈ segments, '/' ∉ segment) (other : segments ≠ [[]]) :
    levels (String.ofList (ofSegments segments)) = segments := by
  by_cases nothing : segments = []
  · subst nothing
    rfl
  · have pieces : Text.splitOn '/' (Text.joinWith ['/'] segments) = segments :=
      Text.splitOn_joinWith nothing alone
    have below : String.ofList (ofSegments segments) ≠ "/" := by
      intro root
      have empty : Text.joinWith ['/'] segments = [] :=
        (List.cons.inj (String.ofList_injective root)).2
      rw [empty] at pieces
      exact other pieces.symm
    rw [levels, if_neg below, String.toList_ofList]
    exact pieces

/-- The levels of a canonical route are its kept segments. -/
theorem IsCanonical.levels_eq (h : IsCanonical route) :
    levels route = keptSegments route.toList := by
  have written : route = String.ofList (ofSegments (keptSegments route.toList)) := by
    rw [← normalizeChars_eq]
    exact h.symm
  conv_lhs => rw [written]
  refine levels_ofSegments (fun _ hs => notMem_of_mem_keptSegments hs) fun single => ?_
  obtain ⟨segment, kept, filled⟩ :=
    exists_filled_mem_keptSegments (single ▸ List.cons_ne_nil [] [])
  rw [single] at kept
  exact filled (List.mem_singleton.1 kept)

/-- A canonical route is made of its levels. -/
theorem IsCanonical.toList_eq (h : IsCanonical route) :
    route.toList = ofSegments (levels route) := by
  rw [h.levels_eq, ← normalizeChars_eq, ← toList_normalize, h]

/-- Canonical routes with the same levels are the same. -/
theorem levels_inj (h : IsCanonical route) (h' : IsCanonical other) :
    levels route = levels other ↔ route = other := by
  constructor
  · intro same
    rw [← String.toList_inj, h.toList_eq, h'.toList_eq, same]
  · rintro rfl
    rfl

/-- The canonical form of a route that is made of segments has them as its levels, without those at
the end that are empty or named `index`. -/
theorem normalize_ofSegments (clean : ∀ segment ∈ segments, '/' ∉ segment ∧ '\\' ∉ segment) :
    normalize (String.ofList (ofSegments segments)) =
      String.ofList (ofSegments (segments.rdropWhile isVoidSegment)) := by
  rw [normalize, String.toList_ofList, normalizeChars_eq, keptSegments_ofSegments clean]

section Names

/-- The route with the given names as its segments. -/
def ofNames (names : List String) : String :=
  "/" ++ "/".intercalate names

/-- Whether a text can be a segment of a route in which nothing is spelled otherwise: it is not
empty, and there is no slash or reverse solidus in it. -/
def IsSegment (s : String) : Prop :=
  s ≠ "" ∧ '/' ∉ s.toList ∧ '\\' ∉ s.toList

/-- The names without those at the end that are `index`. -/
def withoutIndex (names : List String) : List String :=
  names.rdropWhile (· == "index")

variable {names others : List String}

/-- The characters of a route that is made of names. -/
theorem toList_ofNames (names : List String) :
    (ofNames names).toList = ofSegments (names.map String.toList) := by
  rw [ofNames, String.toList_append, String.toList_intercalate, ofSegments,
    Text.joinWith_eq_intercalate]
  rfl

/-- A route that is made of names, written with its characters. -/
theorem ofNames_eq (names : List String) :
    ofNames names = String.ofList (ofSegments (names.map String.toList)) := by
  rw [← toList_ofNames, String.ofList_toList]

private theorem rdropWhile_isVoidSegment (h : ∀ name ∈ names, IsSegment name) :
    (names.map String.toList).rdropWhile isVoidSegment =
      (withoutIndex names).map String.toList := by
  induction names using List.reverseRecOn with
  | nil => rfl
  | append_singleton init last ih =>
    obtain ⟨each, single⟩ := List.forall_mem_append.1 h
    have filled : last.toList ≠ [] := mt String.toList_eq_nil_iff.1 (single last (by simp)).1
    have named : isVoidSegment last.toList = (last == "index") := by
      rw [Bool.eq_iff_iff, isVoidSegment, Bool.or_eq_true, beq_iff_eq, beq_iff_eq, beq_iff_eq,
        ← String.toList_inj]
      exact or_iff_right filled
    rw [withoutIndex, List.map_append, List.map_singleton, List.rdropWhile_concat,
      List.rdropWhile_concat, named, ih each]
    split
    · rfl
    · rw [List.map_append, List.map_singleton]

/-- Names without `index` at the end are some of the names. -/
theorem withoutIndex_subset (names : List String) : withoutIndex names ⊆ names :=
  (List.rdropWhile_prefix _ _).subset

/-- Names stay as they are when the last one is not `index`. -/
theorem withoutIndex_eq_self (h : names.getLast? ≠ some "index") : withoutIndex names = names := by
  rw [withoutIndex, List.rdropWhile_eq_self_iff]
  intro nonempty last
  exact h (by rw [List.getLast?_eq_some_getLast nonempty, eq_of_beq last])

/-- The canonical form of a route that is made of names has no `index` at its end. -/
theorem normalize_ofNames (h : ∀ name ∈ names, IsSegment name) :
    normalize (ofNames names) = ofNames (withoutIndex names) := by
  have clean : ∀ segment ∈ names.map String.toList, '/' ∉ segment ∧ '\\' ∉ segment := by
    intro segment hs
    obtain ⟨name, hn, rfl⟩ := List.mem_map.1 hs
    exact (h name hn).2
  rw [ofNames_eq, normalize_ofSegments clean, rdropWhile_isVoidSegment h, ← ofNames_eq]

/-- The levels of a route that is made of names are these names. -/
theorem levels_ofNames (h : ∀ name ∈ names, IsSegment name) :
    levels (ofNames names) = names.map String.toList := by
  rw [ofNames_eq]
  refine levels_ofSegments ?_ fun single => ?_
  · intro segment hs
    obtain ⟨name, hn, rfl⟩ := List.mem_map.1 hs
    exact (h name hn).2.1
  · obtain ⟨name, rfl, empty⟩ := List.map_eq_singleton_iff.1 single
    exact (h name List.mem_cons_self).1 (String.toList_eq_nil_iff.1 empty)

/-- No segment of a route that is made of names is empty, but for the root. -/
theorem nil_notMem_splitOn_ofNames (h : ∀ name ∈ names, IsSegment name)
    (other : ofNames names ≠ "/") : [] ∉ Text.splitOn '/' (ofNames names).toList.tail := by
  have pieces : Text.splitOn '/' (ofNames names).toList.tail = names.map String.toList := by
    rw [← levels_ofNames h, levels, if_neg other]
  intro empty
  rw [pieces] at empty
  obtain ⟨name, hn, blank⟩ := List.mem_map.1 empty
  exact (h name hn).1 (String.toList_eq_nil_iff.1 blank)

/-- Routes that are made of names are the same when the names are. -/
theorem ofNames_inj (h : ∀ name ∈ names, IsSegment name) (h' : ∀ name ∈ others, IsSegment name) :
    ofNames names = ofNames others ↔ names = others := by
  constructor
  · intro same
    have levels := congrArg levels same
    rw [levels_ofNames h, levels_ofNames h'] at levels
    exact List.map_injective_iff.2 (fun _ _ => String.toList_inj.1) levels
  · rintro rfl
    rfl

end Names

end PageIndex.Route
