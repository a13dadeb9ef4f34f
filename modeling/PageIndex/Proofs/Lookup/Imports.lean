import PageIndex.Proofs.Lookup.Calls

/-!
# The import graph of a lookup

A question is posed when the module that it is put to is the one in its file. Posed questions lead
to posed questions, and these are about files that the import graph of the first file reaches. The
main statement is `Posed.of_leadsTo`, that everything that goes onto the trail on the way is looked
for in such files, too.
-/

namespace PageIndex

open Script

/-- The file in which a question is put. -/
def Query.file : Query → Path
  | .value p _ _ => p
  | .binding p _ _ => p
  | .imported p _ _ => p
  | .exported p _ _ => p

namespace Codebase

/-- Whether the module in a file asks for another file. -/
def Imports (code : Codebase) (p p' : Path) : Prop :=
  ∃ m request, code.module? p = some m ∧ request ∈ m.sources ∧ code.target? p request = some p'

/-- Whether the import graph of a file reaches another one. It reaches the file itself. -/
def Reaches (code : Codebase) : Path → Path → Prop :=
  Relation.ReflTransGen code.Imports

/-- Whether a question is put to the module in its file. -/
def Posed (code : Codebase) : Query → Prop
  | .value p m _ => code.module? p = some m
  | .binding p m _ => code.module? p = some m
  | .imported p request _ => ∃ m, code.module? p = some m ∧ request ∈ m.sources
  | .exported p m _ => code.module? p = some m

variable {code : Codebase} {q r : Query} {ask : Query → Option Json} {c d : Call}

/-- A posed question leads to posed questions about its own file, or about one that its file
imports. -/
theorem Posed.of_asked (h : code.Posed q) (hr : r ∈ (code.plan q).asked ask) :
    code.Posed r ∧ (r.file = q.file ∨ code.Imports q.file r.file) := by
  cases q with
  | value p m e =>
    rcases mem_asked_value hr with ⟨part, rfl, -⟩ | ⟨name, rfl, -⟩
    · exact ⟨h, .inl rfl⟩
    · exact ⟨h, .inl rfl⟩
  | binding p m name =>
    rcases mem_asked_binding hr with ⟨e, -, rfl⟩ | ⟨request, exported, hs, rfl⟩
    · exact ⟨h, .inl rfl⟩
    · exact ⟨⟨m, h, hs⟩, .inl rfl⟩
  | imported p request exported =>
    obtain ⟨m, hm, hs⟩ := h
    obtain ⟨target, m', ht, hm', rfl⟩ := mem_asked_imported hr
    exact ⟨hm', .inr ⟨m, request, hm, hs, ht⟩⟩
  | exported p m name =>
    rcases mem_asked_exported hr with
      ⟨e, -, rfl⟩ | ⟨inner, -, rfl⟩ | ⟨request, exported, hs, rfl⟩
    · exact ⟨h, .inl rfl⟩
    · exact ⟨h, .inl rfl⟩
    · exact ⟨⟨m, h, hs⟩, .inl rfl⟩

/-- What a posed question looks for is in its own file, or in one that its file imports. -/
theorem Posed.of_visit? {v : Visit} (h : code.Posed q) (hv : code.visit? q = some v) :
    v.file = q.file ∨ code.Imports q.file v.file := by
  cases q with
  | value p m e => cases hv
  | exported p m name => cases hv
  | binding p m name =>
    cases hv
    exact .inl rfl
  | imported p request exported =>
    obtain ⟨m, hm, hs⟩ := h
    obtain ⟨target, ht, rfl⟩ := Option.map_eq_some_iff.1 hv
    exact .inr ⟨m, request, hm, hs, ht⟩

private theorem Reaches.step {p p' p'' : Path} (h : code.Reaches p p')
    (hs : p'' = p' ∨ code.Imports p' p'') : code.Reaches p p'' := by
  rcases hs with rfl | hs
  · exact h
  · exact h.tail hs

/-- Wherever a posed question leads, there is a posed question about a file that the import graph
reaches, and what went onto the trail on the way is looked for in such files. -/
theorem Posed.of_leadsTo (h : code.LeadsTo c d) (hc : code.Posed c.query) :
    code.Posed d.query ∧ code.Reaches c.query.file d.query.file ∧
      ∀ v ∈ d.trail, v ∈ c.trail ∨ code.Reaches c.query.file v.file := by
  induction h with
  | refl => exact ⟨hc, .refl, fun v hv => .inl hv⟩
  | tail _ made ih =>
    obtain ⟨posed, reached, seen⟩ := ih
    obtain ⟨he, hr⟩ := mem_calls_iff.1 made
    obtain ⟨posed', near⟩ := posed.of_asked hr
    refine ⟨posed', reached.step near, fun v hv => ?_⟩
    obtain ⟨-, hi⟩ | ⟨w, hw, -, hi⟩ := enter?_eq_some_iff.1 he
    · rw [hi] at hv
      exact seen v hv
    · rw [hi] at hv
      rcases List.mem_cons.1 hv with rfl | hv
      · exact .inr (reached.step (posed.of_visit? hw))
      · exact seen v hv

end Codebase

end PageIndex
