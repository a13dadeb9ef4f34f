import PageIndex.Proofs.Route.Segments

/-!
# Canonical routes

Taking slashes and `/index` off the end of a route, one at a time, comes to an end, and what is left
then is the canonical form (`trims_normalizeChars`). A route and its canonical form have the same
kept segments (`keptSegments_normalizeChars`), so two routes have one canonical form exactly when
their kept segments are the same. The main statement is `normalize_canonical`.
-/

namespace PageIndex.Route

/-- What is taken off the end of a route besides slashes. -/
def indexEnding : List Char :=
  ['/', 'i', 'n', 'd', 'e', 'x']

/-- One pass over the end of a route: a slash is taken off unless it stands alone, and else the
ending `/index`, in whose place a slash stays if nothing is before it. -/
def trimEnd? (route : List Char) : Option (List Char) :=
  if 1 < route.length ∧ route.getLast? = some '/' then some route.dropLast
  else (Text.dropEnd? indexEnding route).map fun stem => if stem = [] then ['/'] else stem

/-- Passes over the end of a route lead to a text at whose end there is nothing to take off. -/
inductive Trims : List Char → List Char → Prop where
  | done {route : List Char} (settled : trimEnd? route = none) : Trims route route
  | pass {route next result : List Char} (trimmed : trimEnd? route = some next)
      (rest : Trims next result) : Trims route result

section Passes

variable {route next result other cs segment : List Char}

/-- Passes that come to an end come to one end. -/
theorem Trims.eq (h : Trims route result) (h' : Trims route other) : result = other := by
  induction h with
  | done settled =>
    cases h' with
    | done => rfl
    | pass trimmed => cases settled.symm.trans trimmed
  | pass trimmed rest ih =>
    cases h' with
    | done settled => cases settled.symm.trans trimmed
    | pass trimmed' rest' =>
      cases trimmed.symm.trans trimmed'
      exact ih rest'

/-- Nothing is left to be taken off the end of what passes lead to. -/
theorem Trims.settled (h : Trims route result) : trimEnd? result = none := by
  induction h with
  | done settled => exact settled
  | pass trimmed rest ih => exact ih

/-- A slash that does not stand alone is at the end of a route when something is before it. -/
theorem endsWithSlash_iff :
    1 < route.length ∧ route.getLast? = some '/' ↔ ∃ cs, cs ≠ [] ∧ route = cs ++ ['/'] := by
  constructor
  · rintro ⟨long, slash⟩
    obtain ⟨cs, rfl⟩ := List.getLast?_eq_some_iff.1 slash
    refine ⟨cs, ?_, rfl⟩
    rintro rfl
    exact Nat.lt_irrefl 1 long
  · rintro ⟨cs, filled, rfl⟩
    have := List.length_pos_iff.2 filled
    refine ⟨?_, List.getLast?_concat⟩
    rw [List.length_append, List.length_singleton]
    omega

/-- Nothing is to be taken off a route that ends with none of the endings. -/
theorem trimEnd?_eq_none_iff :
    trimEnd? route = none ↔
      (∀ cs, cs ≠ [] → route ≠ cs ++ ['/']) ∧ ¬ indexEnding <:+ route := by
  have ending : Text.dropEnd? indexEnding route = none ↔ ¬ indexEnding <:+ route := by
    rw [Option.eq_none_iff_forall_ne_some]
    constructor
    · rintro unended ⟨stem, rfl⟩
      exact unended stem (Text.dropEnd?_eq_some_iff.2 rfl)
    · intro unended stem found
      exact unended ⟨stem, (Text.dropEnd?_eq_some_iff.1 found).symm⟩
  rw [trimEnd?]
  split
  · next slash =>
    obtain ⟨cs, filled, written⟩ := endsWithSlash_iff.1 slash
    simp only [reduceCtorEq, false_iff, not_and]
    intro open_end
    exact absurd written (open_end cs filled)
  · next open_end =>
    rw [Option.map_eq_none_iff, ending]
    refine (and_iff_right ?_).symm
    intro cs filled written
    exact open_end (endsWithSlash_iff.2 ⟨cs, filled, written⟩)

/-- A pass takes an empty last segment off, but for the one of the root. -/
theorem trimEnd?_slash (filled : cs ≠ []) : trimEnd? (cs ++ ['/']) = some cs := by
  rw [trimEnd?, if_pos (endsWithSlash_iff.2 ⟨cs, filled, rfl⟩), List.dropLast_concat]

/-- A pass takes a last segment `index` off. -/
theorem trimEnd?_index (cs : List Char) :
    trimEnd? (cs ++ indexEnding) = some (if cs = [] then ['/'] else cs) := by
  have last : (cs ++ indexEnding).getLast? = some 'x' := by
    rw [List.getLast?_append]
    rfl
  rw [trimEnd?, if_neg (by simp [last]), Text.dropEnd?_eq_some_iff.2 rfl, Option.map_some]

/-- A segment that stays ends the passes. -/
theorem trimEnd?_of_kept (alone : '/' ∉ segment) (kept : isVoidSegment segment = false) :
    trimEnd? (cs ++ '/' :: segment) = none := by
  have filled : segment ≠ [] := by
    rintro rfl
    cases kept
  rw [trimEnd?_eq_none_iff]
  constructor
  · intro before _ written
    have last := congrArg List.getLast? written
    rw [List.getLast?_append_of_ne_nil _ (List.cons_ne_nil _ _),
      List.getLast?_cons_of_ne_nil filled, List.getLast?_concat] at last
    exact alone (List.mem_of_getLast? last)
  · rintro ⟨stem, written⟩
    -- Read backwards, both texts are a segment before its slash.
    have backwards : ['x', 'e', 'd', 'n', 'i'] ++ '/' :: stem.reverse =
        segment.reverse ++ '/' :: cs.reverse := by
      simpa [indexEnding] using congrArg List.reverse written
    have named := Text.eq_of_append_cons_eq (by decide) (by simpa using alone) backwards
    rw [← List.reverse_reverse segment, ← named] at kept
    cases kept

end Passes

/-- Passes take the segments off the end that are empty or named `index`. -/
theorem trims_ofSegments {segments : List (List Char)}
    (alone : ∀ segment ∈ segments, '/' ∉ segment) :
    Trims (ofSegments segments) (ofSegments (segments.rdropWhile isVoidSegment)) := by
  have root : Trims ['/'] ['/'] := .done (by decide)
  induction segments using List.reverseRecOn with
  | nil => exact root
  | append_singleton init last ih =>
    obtain ⟨each, last_alone⟩ := List.forall_mem_append.1 alone
    specialize ih each
    cases void : isVoidSegment last with
    | false =>
      have settled : trimEnd? (ofSegments (init ++ [last])) = none := by
        have kept (cs : List Char) : trimEnd? (cs ++ '/' :: last) = none :=
          trimEnd?_of_kept (last_alone last (List.mem_singleton_self last)) void
        cases init with
        | nil => exact kept []
        | cons first rest =>
          rw [ofSegments_append_singleton (List.cons_ne_nil first rest)]
          exact kept _
      rw [List.rdropWhile_concat_neg _ _ _ (by simp [void])]
      exact .done settled
    | true =>
      have named : last = [] ∨ last = ['i', 'n', 'd', 'e', 'x'] := by
        simpa [isVoidSegment] using void
      rw [List.rdropWhile_concat_pos _ _ _ void]
      cases init with
      | nil =>
        rcases named with rfl | rfl
        · exact root
        · exact .pass (trimEnd?_index []) root
      | cons first rest =>
        have filled : ofSegments (first :: rest) ≠ [] := List.cons_ne_nil _ _
        rw [ofSegments_append_singleton (List.cons_ne_nil first rest)]
        rcases named with rfl | rfl
        · exact .pass (trimEnd?_slash filled) ih
        · have trimmed := trimEnd?_index (ofSegments (first :: rest))
          rw [if_neg filled] at trimmed
          exact .pass trimmed ih

/-- Passes over a route in one spelling of its slashes, with a slash in front, lead to the canonical
form. -/
theorem trims_normalizeChars (route : List Char) :
    Trims (withSlash (route.map unifySlash)) (normalizeChars route) := by
  rw [← ofSegments_rawSegments, normalizeChars_eq, keptSegments]
  exact trims_ofSegments fun segment h => Text.notMem_of_mem_splitOn h

section Segments

variable {route cs segment : List Char} {segments : List (List Char)}

/-- A text in which slashes are spelled in one way has no reverse solidus. -/
theorem notMem_map_unifySlash (cs : List Char) : '\\' ∉ cs.map unifySlash := by
  intro h
  obtain ⟨c, -, hc⟩ := List.mem_map.1 h
  rw [unifySlash] at hc
  split at hc
  · cases hc
  · next other => exact other hc

/-- A text without a reverse solidus has its slashes spelled in one way. -/
theorem map_unifySlash_of_notMem (h : '\\' ∉ cs) : cs.map unifySlash = cs := by
  have same : ∀ c ∈ cs, unifySlash c = c := by
    intro c hc
    rw [unifySlash, if_neg]
    rintro rfl
    exact h hc
  rw [List.map_congr_left same, List.map_id']

/-- What stands after the slash in front of a route stands in the route. -/
theorem tail_withSlash_subset (cs : List Char) : (withSlash cs).tail ⊆ cs := by
  unfold withSlash
  split
  · exact List.subset_cons_self _ _
  · exact List.Subset.refl _

/-- No segment of a route has a slash or a reverse solidus in it. -/
theorem notMem_of_mem_rawSegments (h : segment ∈ rawSegments route) :
    '/' ∉ segment ∧ '\\' ∉ segment := by
  refine ⟨Text.notMem_of_mem_splitOn h, fun hc => ?_⟩
  have written := tail_withSlash_subset _ (Text.mem_of_mem_splitOn h hc)
  exact notMem_map_unifySlash route written

/-- A route that is made of segments has no reverse solidus if they have none. -/
theorem notMem_ofSegments (h : ∀ segment ∈ segments, '\\' ∉ segment) :
    '\\' ∉ ofSegments segments := by
  intro hc
  rcases List.mem_cons.1 hc with slash | inner
  · cases slash
  · rcases Text.mem_or_exists_of_mem_joinWith inner with sep | ⟨segment, hs, hc⟩
    · cases List.mem_singleton.1 sep
    · exact h segment hs hc

/-- A route that is made of segments has them as its segments, up to those at its end that are empty
or named `index`. -/
theorem keptSegments_ofSegments (h : ∀ segment ∈ segments, '/' ∉ segment ∧ '\\' ∉ segment) :
    keptSegments (ofSegments segments) = segments.rdropWhile isVoidSegment := by
  have spelled : (ofSegments segments).map unifySlash = ofSegments segments :=
    map_unifySlash_of_notMem (notMem_ofSegments fun segment hs => (h segment hs).2)
  have raw : rawSegments (ofSegments segments) =
      Text.splitOn '/' (Text.joinWith ['/'] segments) := by
    rw [rawSegments, spelled]
    rfl
  rw [keptSegments, raw]
  by_cases nothing : segments = []
  · subst nothing
    rfl
  · rw [Text.splitOn_joinWith nothing fun segment hs => (h segment hs).1]

/-- A route and its canonical form have the same kept segments. -/
theorem keptSegments_normalizeChars (route : List Char) :
    keptSegments (normalizeChars route) = keptSegments route := by
  have clean : ∀ segment ∈ keptSegments route, '/' ∉ segment ∧ '\\' ∉ segment := fun segment hs =>
    notMem_of_mem_rawSegments ((List.rdropWhile_prefix _ _).subset hs)
  rw [normalizeChars_eq, keptSegments_ofSegments clean, keptSegments, List.rdropWhile_idempotent]

/-- More text after a slash adds its segments. -/
theorem rawSegments_append (filled : route ≠ []) (more : List Char) :
    rawSegments (route ++ '/' :: more) =
      rawSegments route ++ Text.splitOn '/' (more.map unifySlash) := by
  have front (cs : List Char) (hc : cs ≠ []) (ds : List Char) :
      (withSlash (cs ++ ds)).tail = (withSlash cs).tail ++ ds := by
    obtain ⟨c, cs, rfl⟩ := List.exists_cons_of_ne_nil hc
    by_cases slash : c = '/'
    · subst slash
      rfl
    · simp [withSlash, slash]
  have mapped : (route ++ '/' :: more).map unifySlash =
      route.map unifySlash ++ '/' :: more.map unifySlash := by
    rw [List.map_append]
    rfl
  rw [rawSegments, mapped, front _ (mt List.map_eq_nil_iff.1 filled), Text.splitOn_append_cons,
    rawSegments]

/-- A further segment that is empty or named `index` changes nothing. -/
theorem keptSegments_append (void : isVoidSegment segment = true) :
    keptSegments (route ++ '/' :: segment) = keptSegments route := by
  have one : Text.splitOn '/' (segment.map unifySlash) = [segment] := by
    have named : segment = [] ∨ segment = ['i', 'n', 'd', 'e', 'x'] := by
      simpa [isVoidSegment] using void
    rcases named with rfl | rfl <;> decide
  by_cases empty : route = []
  · subst empty
    have raw : rawSegments ('/' :: segment) = [segment] := by
      rw [← one]
      rfl
    rw [List.nil_append, keptSegments, raw, List.rdropWhile_singleton, if_pos void]
    rfl
  · rw [keptSegments, rawSegments_append empty, one, List.rdropWhile_concat_pos _ _ _ void,
      keptSegments]

end Segments

/-- The characters of a canonical route. -/
theorem toList_normalize (route : String) :
    (normalize route).toList = normalizeChars route.toList :=
  String.toList_ofList

/-- Two routes have one canonical form when they have the same kept segments. -/
theorem normalize_eq_iff {route other : String} :
    normalize route = normalize other ↔
      keptSegments route.toList = keptSegments other.toList := by
  rw [← String.toList_inj, toList_normalize, toList_normalize]
  constructor
  · intro same
    rw [← keptSegments_normalizeChars, same, keptSegments_normalizeChars]
  · intro same
    rw [normalizeChars_eq, same, ← normalizeChars_eq]

/-- The canonical form of a route is made of the segments after its first slash, in one spelling of
the slashes, without those at the end that are empty or named `index`. Taking slashes and `/index`
off the end of the route comes to an end in just this form. It starts with a slash, has no reverse
solidus, and is `/` or ends neither with a slash nor with `/index`. It is its own canonical form, it
does not change when a slash or `/index` is put after the route, and it is that of another route
exactly when the segments that are left are the same. -/
theorem normalize_canonical (route : String) :
    (∀ result, Trims (withSlash (route.toList.map unifySlash)) result ↔
      result = (normalize route).toList) ∧
    (normalize route).toList = ofSegments (keptSegments route.toList) ∧
    (∃ rest, (normalize route).toList = '/' :: rest) ∧
    '\\' ∉ (normalize route).toList ∧
    (normalize route = "/" ∨
      ¬ ['/'] <:+ (normalize route).toList ∧ ¬ indexEnding <:+ (normalize route).toList) ∧
    normalize (normalize route) = normalize route ∧
    normalize (route ++ "/") = normalize route ∧
    normalize (route ++ "/index") = normalize route ∧
    ∀ other, normalize route = normalize other ↔
      keptSegments route.toList = keptSegments other.toList := by
  have ends := trims_normalizeChars route.toList
  have made : (normalize route).toList = ofSegments (keptSegments route.toList) := by
    rw [toList_normalize, normalizeChars_eq]
  rw [← toList_normalize] at ends
  refine ⟨?_, made, ⟨_, made⟩, ?_, ?_, ?_, ?_, ?_, fun other => normalize_eq_iff⟩
  · intro result
    constructor
    · intro h
      exact h.eq ends
    · rintro rfl
      exact ends
  · rw [made]
    exact notMem_ofSegments fun segment hs =>
      (notMem_of_mem_rawSegments ((List.rdropWhile_prefix _ _).subset hs)).2
  · obtain ⟨open_end, unnamed⟩ := trimEnd?_eq_none_iff.1 ends.settled
    rw [or_iff_not_imp_left]
    intro other
    refine ⟨?_, unnamed⟩
    rintro ⟨stem, written⟩
    refine open_end stem ?_ written.symm
    rintro rfl
    exact other (String.toList_inj.1 written.symm)
  · rw [normalize_eq_iff, toList_normalize, keptSegments_normalizeChars]
  · rw [normalize_eq_iff, String.toList_append]
    exact keptSegments_append rfl
  · rw [normalize_eq_iff, String.toList_append]
    exact keptSegments_append rfl

end PageIndex.Route
