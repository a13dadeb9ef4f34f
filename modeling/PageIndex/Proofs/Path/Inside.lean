import PageIndex.Proofs.Path.Normal

/-!
# Paths inside other paths

A path lies inside another one when it goes on after it with names (`IsInside`). A further name is a
further component (`components_child`). So names lead to one path from two places only if one of the
places is the other or lies inside it (`eq_or_isInside_of_append_eq`).
-/

namespace PageIndex.Path

variable {p q : Path} {s : String}

/-- Whether a path goes on after another one with names. -/
def IsInside (p q : Path) : Prop :=
  ∃ more : List String, more ≠ [] ∧ p.components = q.components ++ more.map .name

/-- A path inside another one has more components. -/
theorem IsInside.length_lt (h : p.IsInside q) : q.components.length < p.components.length := by
  obtain ⟨more, nonempty, longer⟩ := h
  have filled : 0 < more.length := List.length_pos_iff.2 nonempty
  rw [longer, List.length_append, List.length_map]
  omega

/-- A text in front of which no slash is missing is relative. -/
theorem isAbsolute_of_isEntryName (hs : IsEntryName s) : (Path.mk s).isAbsolute = false := by
  rw [← Bool.not_eq_true, isAbsolute_iff]
  rintro ⟨rest, written⟩
  have slash : '/' ∈ s.toList := by
    rw [show s.toList = '/' :: rest from written]
    exact List.mem_cons_self
  exact hs.2.2.2 slash

/-- A further name is a further component. -/
theorem components_child (p : Path) (hs : IsEntryName s) :
    (p.child s).components = p.components ++ [.name s] := by
  have alone : (Path.mk s).pieces = [s.toList] := Text.splitOn_of_notMem hs.2.2.2
  rcases components_join p (isAbsolute_of_isEntryName hs) with ⟨empty, start⟩ | added
  · obtain rfl : p = ⟨""⟩ := eq_of_chars_eq empty
    have blank : components ⟨""⟩ = [] := rfl
    have here : s.toList ≠ ['.'] := (isEntryName_iff.1 hs).1.2.1
    rw [child, start, blank, components, alone]
    simp [first?, isAbsolute_of_isEntryName hs, here, inner?_toList hs]
  · rw [child, added, alone, List.filterMap_cons, inner?_toList hs]
    rfl

/-- If names lead to one path from two places, the places are spellings of one path, or one of them
lies inside the other. -/
theorem eq_or_isInside_of_append_eq {names others : List String}
    (h : p.components ++ names.map Component.name = q.components ++ others.map Component.name) :
    p.components = q.components ∨ p.IsInside q ∨ q.IsInside p := by
  rcases List.append_eq_append_iff.1 h with ⟨between, longer, parts⟩ | ⟨between, longer, parts⟩
  · obtain ⟨more, rest, -, rfl, -⟩ := List.map_eq_append_iff.1 parts
    by_cases nothing : more = []
    · exact .inl (by simpa [nothing] using longer.symm)
    · exact .inr (.inr ⟨more, nothing, longer⟩)
  · obtain ⟨more, rest, -, rfl, -⟩ := List.map_eq_append_iff.1 parts
    by_cases nothing : more = []
    · exact .inl (by simpa [nothing] using longer)
    · exact .inr (.inl ⟨more, nothing, longer⟩)

end PageIndex.Path
