import Mathlib.Data.List.DropRight
import PageIndex.Route

/-!
# Routes by their segments

The canonical form of a route is told by segments: of those that stand between the slashes, the
empty ones and those named `index` are taken off the end. The main statement is `normalizeChars_eq`.
What is left ends with a segment that is not empty, so the label of a canonical route is not empty
either (`label_normalize_ne_empty`).
-/

namespace PageIndex.Route

/-- Whether a segment is taken off the end of a route. -/
def isVoidSegment (segment : List Char) : Bool :=
  segment == [] || segment == ['i', 'n', 'd', 'e', 'x']

/-- The segments of a route after the slash at its start, in one spelling of the slashes. -/
def rawSegments (route : List Char) : List (List Char) :=
  Text.splitOn '/' (withSlash (route.map unifySlash)).tail

/-- The segments of the canonical form of a route. -/
def keptSegments (route : List Char) : List (List Char) :=
  (rawSegments route).rdropWhile isVoidSegment

/-- The route that is made of segments. -/
def ofSegments (segments : List (List Char)) : List Char :=
  '/' :: Text.joinWith ['/'] segments

/-- A route has a slash in front once it was put there. -/
theorem withSlash_eq_cons_tail (cs : List Char) : withSlash cs = '/' :: (withSlash cs).tail := by
  unfold withSlash
  split <;> rfl

/-- A route is made of its segments. -/
theorem ofSegments_rawSegments (route : List Char) :
    ofSegments (rawSegments route) = withSlash (route.map unifySlash) := by
  rw [ofSegments, rawSegments, Text.joinWith_splitOn, ← withSlash_eq_cons_tail]

/-- Further segments stand after a slash of their own. -/
theorem ofSegments_append {segments more : List (List Char)} (h : segments ≠ []) (h' : more ≠ []) :
    ofSegments (segments ++ more) = ofSegments segments ++ ofSegments more := by
  rw [ofSegments, Text.joinWith_append _ h h', ofSegments, ofSegments]
  simp

/-- A further segment stands after a slash of its own. -/
theorem ofSegments_append_singleton {segments : List (List Char)} (h : segments ≠ [])
    (last : List Char) : ofSegments (segments ++ [last]) = ofSegments segments ++ '/' :: last :=
  ofSegments_append h (List.cons_ne_nil last [])

section Trim

variable {segment cs : List Char}

/-- A segment that stays ends the trimming. -/
theorem trimBackwards_of_kept (alone : '/' ∉ segment) (kept : isVoidSegment segment = false) :
    trimBackwards (segment.reverse ++ '/' :: cs) = segment.reverse ++ '/' :: cs := by
  have alone' : '/' ∉ segment.reverse := by simpa using alone
  -- What trimming looks at is before the first slash, and that is the segment.
  unfold trimBackwards
  split
  · next c rest parts =>
    cases hs : segment.reverse with
    | nil =>
      rw [List.reverse_eq_nil_iff.1 hs] at kept
      cases kept
    | cons d more =>
      rw [hs] at parts alone'
      obtain ⟨rfl, -⟩ := List.cons.inj parts
      exact absurd List.mem_cons_self alone'
  · next rest parts =>
    have named : segment.reverse = ['x', 'e', 'd', 'n', 'i'] :=
      Text.eq_of_append_cons_eq alone' (by decide) parts
    rw [List.reverse_eq_iff.1 named] at kept
    cases kept
  · rfl

/-- A segment that is taken off leaves what stands before it, of which the first slash stays. -/
theorem trimBackwards_of_void (void : isVoidSegment segment = true) :
    trimBackwards (segment.reverse ++ '/' :: cs) =
      if cs = [] then ['/'] else trimBackwards cs := by
  have named : segment = [] ∨ segment = ['i', 'n', 'd', 'e', 'x'] := by
    simpa [isVoidSegment] using void
  rcases named with rfl | rfl
  all_goals
    cases cs <;> simp [trimBackwards]

end Trim

/-- Trimming takes the segments off the end that are empty or named `index`. -/
theorem trimBackwards_ofSegments {segments : List (List Char)}
    (alone : ∀ segment ∈ segments, '/' ∉ segment) :
    trimBackwards (ofSegments segments).reverse =
      (ofSegments (segments.rdropWhile isVoidSegment)).reverse := by
  induction segments using List.reverseRecOn with
  | nil => simp [ofSegments, Text.joinWith, trimBackwards]
  | append_singleton init last ih =>
    have written : ∃ cs, (ofSegments (init ++ [last])).reverse = last.reverse ++ '/' :: cs ∧
        (if cs = [] then ['/'] else trimBackwards cs) =
          trimBackwards (ofSegments init).reverse := by
      cases init with
      | nil =>
        refine ⟨[], by simp [ofSegments, Text.joinWith], ?_⟩
        simp [ofSegments, Text.joinWith, trimBackwards]
      | cons first rest =>
        refine ⟨(ofSegments (first :: rest)).reverse, ?_, if_neg (by simp [ofSegments])⟩
        rw [ofSegments_append_singleton (List.cons_ne_nil first rest)]
        simp
    obtain ⟨cs, written, before⟩ := written
    cases void : isVoidSegment last with
    | true =>
      rw [List.rdropWhile_concat_pos _ _ _ void, written, trimBackwards_of_void void, before]
      exact ih fun segment h => alone segment (List.mem_append_left _ h)
    | false =>
      have last_alone : '/' ∉ last :=
        alone last (List.mem_append_right init (List.mem_singleton_self last))
      rw [List.rdropWhile_concat_neg _ _ _ (by simp [void]), written,
        trimBackwards_of_kept last_alone void]

/-- The canonical form of a route is made of its segments without the empty ones and those named
`index` at its end. -/
theorem normalizeChars_eq (route : List Char) :
    normalizeChars route = ofSegments (keptSegments route) := by
  have alone : ∀ segment ∈ rawSegments route, '/' ∉ segment := fun segment h =>
    Text.notMem_of_mem_splitOn h
  rw [normalizeChars, ← ofSegments_rawSegments, trimBackwards_ofSegments alone,
    List.reverse_reverse, keptSegments]

/-- No kept segment has a slash in it. -/
theorem notMem_of_mem_keptSegments {route segment : List Char} (h : segment ∈ keptSegments route) :
    '/' ∉ segment :=
  Text.notMem_of_mem_splitOn ((List.rdropWhile_prefix _ _).subset h)

/-- The last segment of a canonical route is not empty. -/
theorem exists_filled_mem_keptSegments {route : List Char} (h : keptSegments route ≠ []) :
    ∃ segment ∈ keptSegments route, segment ≠ [] := by
  have last := List.rdropWhile_last_not isVoidSegment (rawSegments route) h
  refine ⟨(keptSegments route).getLast h, List.getLast_mem h, fun empty => last ?_⟩
  show isVoidSegment ((keptSegments route).getLast h) = true
  rw [empty]
  rfl

/-- A canonical route has a label. -/
theorem label_normalize_ne_empty (route : String) : label (normalize route) ≠ "" := by
  have canonical : (normalize route).toList = ofSegments (keptSegments route.toList) := by
    rw [normalize, String.toList_ofList, normalizeChars_eq]
  unfold label
  split
  · decide
  · next other =>
    have nonempty : keptSegments route.toList ≠ [] := by
      intro nothing
      rw [nothing] at canonical
      exact other (String.toList_inj.1 canonical)
    obtain ⟨segment, kept, filled⟩ := exists_filled_mem_keptSegments nonempty
    have listed : segment ∈ segments (normalize route).toList := by
      rw [canonical, segments, ofSegments, Text.splitOn, if_pos rfl,
        Text.splitOn_joinWith nonempty fun _ h => notMem_of_mem_keptSegments h]
      exact List.mem_filter.2 ⟨List.mem_cons_of_mem _ kept, by simpa using filled⟩
    refine mt String.ofList_eq_empty_iff.1 ?_
    apply Text.joinWith_ne_nil (List.mem_map_of_mem listed)
    exact mt (Text.capitalize_eq_nil_iff segment).1 filled

end PageIndex.Route
