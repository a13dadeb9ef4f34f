import PageIndex.Proofs.Lookup.Calls

/-!
# What a trail lies upon

A lookup may begin with a trail that something lies under: what was looked for before it. The main
statement is `answer_append`. What lies under the trail makes no difference to a lookup that meets
none of it again and has room enough for the files that it enters.
-/

namespace PageIndex

open Script

/-- Whether a trail may lie upon `rest`: files enough may still be entered, and nothing on the
trail is also on `rest`. -/
structure Trail.LiesUpon (t rest : Trail) : Prop where
  room : t.hops + rest.hops ≤ hopLimit
  apart : ∀ v ∈ t, rest.holds v = false

namespace Trail

variable {t rest : Trail} {v : Visit}

/-- The number of entered files of a trail that goes on with another one. -/
theorem hops_append (t rest : Trail) : hops (t ++ rest) = hops t + hops rest := by
  simp only [hops, List.countP_append]

/-- What a trail admits upon another one, it admits by itself. -/
theorem admits_of_append (h : Trail.admits (t ++ rest) v = true) : t.admits v = true := by
  rw [admits_iff, hops_append, holds, List.any_append, Bool.or_eq_false_iff] at h
  rw [admits_iff]
  refine ⟨fun he => ?_, h.2.1⟩
  have room := h.1 he
  omega

/-- What a trail admits, it admits upon another one that it may still lie upon afterwards. -/
theorem LiesUpon.admits (h : Trail.LiesUpon (v :: t) rest) (ha : t.admits v = true) :
    Trail.admits (t ++ rest) v = true := by
  have room := h.room
  rw [hops_cons] at room
  rw [admits_iff] at ha ⊢
  constructor
  · intro he
    rw [he] at room
    simp only [if_true] at room
    rw [hops_append]
    omega
  · have apart : rest.holds v = false := h.apart v List.mem_cons_self
    simp only [holds, List.any_append, Bool.or_eq_false_iff] at ha apart ⊢
    exact ⟨ha.2, apart⟩

end Trail

namespace Codebase

variable {code : Codebase} {trail rest : Trail} {q : Query} {c d : Call}

/-- A question that looks for something and leads nowhere has no value. -/
theorem result_eq_none_of_asked {v : Visit} {ask ask' : Query → Option Json}
    (hv : code.visit? q = some v) (h : (code.plan q).asked ask = []) :
    (code.plan q).result ask' = none := by
  cases q with
  | value p m e => cases hv
  | exported p m name => cases hv
  | binding p m name =>
    simp only [plan] at h ⊢
    split at h
    · simp at h
    · split at h
      · simp at h
      · rfl
  | imported p request name =>
    simp only [plan] at h ⊢
    split at h
    · rfl
    · split at h
      · simp at h
      · rfl

/-- What lies under the trail makes no difference to a lookup under which it may lie wherever the
lookup leads. -/
theorem answer_append (h : ∀ d, code.LeadsTo ⟨trail, q⟩ d → d.trail.LiesUpon rest) :
    code.answer (trail ++ rest) q = code.answer trail q := by
  induction hc : (⟨trail, q⟩ : Call) using code.calls_wellFounded.induction
    generalizing trail q with
  | _ c ih =>
    subst hc
    -- The questions that are put under the trail have their answers by induction.
    have agree {inner : Trail} (he : code.enter? trail q = some inner) :
        ∀ r ∈ (code.plan q).asked (code.answer inner),
          code.answer (inner ++ rest) r = code.answer inner r := by
      intro r hr
      have made : (⟨inner, r⟩ : Call) ∈ code.calls ⟨trail, q⟩ := mem_calls_iff.2 ⟨he, hr⟩
      exact ih ⟨inner, r⟩ made (fun d hd => h d (.head made hd)) rfl
    rw [answer_eq, answer_eq]
    cases hv : code.visit? q with
    | none =>
      rw [enter?_of_visit?_eq_none hv, enter?_of_visit?_eq_none hv]
      exact Plan.result_congr fun r _ hr => agree (enter?_of_visit?_eq_none hv) r hr
    | some v =>
      by_cases ha : trail.admits v = true
      · have he : code.enter? trail q = some (v :: trail) :=
          enter?_eq_some_iff.2 (.inr ⟨v, hv, ha, rfl⟩)
        rw [he, Option.bind_some]
        cases hasked : (code.plan q).asked (code.answer (v :: trail)) with
        | nil =>
          rw [result_eq_none_of_asked hv hasked]
          cases code.enter? (trail ++ rest) q with
          | none => rfl
          | some inner => exact result_eq_none_of_asked hv hasked
        | cons r others =>
          have hr : r ∈ (code.plan q).asked (code.answer (v :: trail)) := by
            rw [hasked]
            exact List.mem_cons_self
          have made : (⟨v :: trail, r⟩ : Call) ∈ code.calls ⟨trail, q⟩ :=
            mem_calls_iff.2 ⟨he, hr⟩
          have lies : Trail.LiesUpon (v :: trail) rest := h _ (.single made)
          rw [enter?_of_visit?_eq_some hv, if_pos (lies.admits ha), Option.bind_some]
          exact Plan.result_congr fun r _ hr => agree he r hr
      · have refused : ¬ Trail.admits (trail ++ rest) v = true :=
          fun hr => ha (Trail.admits_of_append hr)
        rw [enter?_of_visit?_eq_some hv, enter?_of_visit?_eq_some hv, if_neg ha, if_neg refused]

/-- No call leads to a trail with more entered files than may be entered. -/
theorem hops_le_of_leadsTo (h : code.LeadsTo c d) (hc : c.trail.hops ≤ Trail.hopLimit) :
    d.trail.hops ≤ Trail.hopLimit := by
  induction h with
  | refl => exact hc
  | tail _ made ih =>
    obtain ⟨he, -⟩ := mem_calls_iff.1 made
    obtain ⟨-, hi⟩ | ⟨v, -, ha, hi⟩ := enter?_eq_some_iff.1 he
    · rw [hi]
      exact ih
    · rw [hi, Trail.hops_cons]
      have room := (Trail.admits_iff.1 ha).1
      split
      · next hv => exact room hv
      · exact ih

end Codebase

end PageIndex
