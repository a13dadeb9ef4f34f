import Mathlib.Data.List.Basic

/-!
# First items

The first item of a list that has a property, told by what stands before it. A search finds just
this item (`find?_eq_some_iff_first`), also when it looks at what the items of another list give
(`first_filterMap_iff`).
-/

namespace PageIndex

/-- Whether `x` is the first item of a list that has a property. -/
def First {α : Type} (p : α → Prop) (l : List α) (x : α) : Prop :=
  ∃ before after, l = before ++ x :: after ∧ p x ∧ ∀ y ∈ before, ¬ p y

section First

variable {α β : Type} {p : α → Prop} {l : List α} {x : α}

/-- A search finds the first item that it looks for. -/
theorem find?_eq_some_iff_first {q : α → Bool} (h : ∀ y, q y = true ↔ p y) :
    l.find? q = some x ↔ First p l x := by
  rw [List.find?_eq_some_iff_append, h]
  constructor
  · rintro ⟨px, before, after, parts, earliest⟩
    refine ⟨before, after, parts, px, fun y hy py => ?_⟩
    simpa [(h y).2 py] using earliest y hy
  · rintro ⟨before, after, parts, px, earliest⟩
    refine ⟨px, before, after, parts, fun y hy => ?_⟩
    simpa [← h] using earliest y hy

/-- If an item has the property, there is a first one. -/
theorem exists_first (hx : x ∈ l) (px : p x) : ∃ y, First p l y := by
  classical
  have found : (l.find? fun y => p y).isSome = true :=
    List.find?_isSome.2 ⟨x, hx, decide_eq_true px⟩
  obtain ⟨y, hy⟩ := Option.isSome_iff_exists.1 found
  exact ⟨y, (find?_eq_some_iff_first fun _ => decide_eq_true_iff).1 hy⟩

/-- The first item is an item, and it has the property. -/
theorem First.mem_and_holds (h : First p l x) : x ∈ l ∧ p x := by
  obtain ⟨before, after, rfl, px, -⟩ := h
  exact ⟨List.mem_append_right _ List.mem_cons_self, px⟩

/-- A search finds what is given by the first item that gives something. -/
theorem findSome?_eq_some_iff_first {f : α → Option β} {b : β} :
    l.findSome? f = some b ↔ ∃ x, First (fun y => ∃ c, f y = some c) l x ∧ f x = some b := by
  rw [List.findSome?_eq_some_iff]
  constructor
  · rintro ⟨before, x, after, parts, given, earliest⟩
    exact ⟨x, ⟨before, after, parts, ⟨b, given⟩, fun y hy => by simp [earliest y hy]⟩, given⟩
  · rintro ⟨x, ⟨before, after, parts, -, earliest⟩, given⟩
    refine ⟨before, x, after, parts, given, fun y hy => ?_⟩
    exact Option.eq_none_iff_forall_ne_some.2 fun c hc => earliest y hy ⟨c, hc⟩

/-- A search among the images of items looks at one item after the other. -/
theorem findSome?_filterMap {γ : Type} (g : α → Option β) (f : β → Option γ) (l : List α) :
    (l.filterMap g).findSome? f = l.findSome? fun x => (g x).bind f := by
  rw [← List.head?_filterMap, List.filterMap_filterMap, List.head?_filterMap]

/-- The first item of a list is the first one of a longer list. -/
theorem First.append (h : First p l x) (more : List α) : First p (l ++ more) x := by
  obtain ⟨before, after, rfl, px, earliest⟩ := h
  exact ⟨before, after ++ more, by simp, px, earliest⟩

/-- An item is the first one by another property, if that property holds of it and of no item that
does not have the old one. -/
theorem First.mono {q : α → Prop} (h : First p l x) (hx : q x) (sub : ∀ y ∈ l, q y → p y) :
    First q l x := by
  obtain ⟨before, after, rfl, -, earliest⟩ := h
  refine ⟨before, after, rfl, hx, fun y hy qy => earliest y hy (sub y ?_ qy)⟩
  exact List.mem_append_left _ hy

/-- The first thing with a property that the items of a list give is given by the first item that
gives a thing with the property. -/
theorem first_filterMap_iff {f : β → Option α} {l : List β} :
    First p (l.filterMap f) x ↔
      ∃ item, First (fun y => ∃ z, f y = some z ∧ p z) l item ∧ f item = some x := by
  constructor
  · rintro ⟨before, after, parts, px, earliest⟩
    obtain ⟨l₁, l₂, rfl, rfl, rest⟩ := List.filterMap_eq_append_iff.1 parts
    obtain ⟨l₃, item, l₄, rfl, skipped, given, -⟩ := List.filterMap_eq_cons_iff.1 rest
    refine ⟨item, ⟨l₁ ++ l₃, l₄, by simp, ⟨x, given, px⟩, ?_⟩, given⟩
    rintro y hy ⟨z, hz, pz⟩
    rcases List.mem_append.1 hy with hy | hy
    · exact earliest z (List.mem_filterMap.2 ⟨y, hy, hz⟩) pz
    · rw [skipped y hy] at hz
      cases hz
  · rintro ⟨item, ⟨before, after, rfl, ⟨z, hz, pz⟩, earliest⟩, given⟩
    cases given.symm.trans hz
    refine ⟨before.filterMap f, after.filterMap f, by simp [hz], pz, fun y hy py => ?_⟩
    obtain ⟨w, hw, gives⟩ := List.mem_filterMap.1 hy
    exact earliest w hw ⟨y, gives, py⟩

end First

end PageIndex
