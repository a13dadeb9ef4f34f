import Mathlib.Logic.Relation
import PageIndex.Proofs.Lookup.Plan
import PageIndex.Proofs.Script.Names

/-!
# The calls of a lookup

A call is a question under a trail. It makes further calls, one for each question that its plan
really puts, under the trail that it entered. The main statement is `calls_wellFounded`: no call
leads back to itself or on without end, whatever the modules of a project ask of each other. It
is the induction for everything that is said about lookups.

The measure is the one by which the lookups are defined. Each call leaves fewer files to enter, or
fewer declared names of its file that are not on the trail, or it goes down from exports to
expressions, to smaller expressions, to names and to imports.
-/

namespace PageIndex

open Script

/-- A question under a trail. -/
structure Call where
  trail : Trail
  query : Query

namespace Visit

/-- Two visits are the same when they look for the same in spellings of one file. -/
theorem same_iff {v w : Visit} :
    v.same w = true ↔ v.file.components = w.file.components ∧ v.sought = w.sought := by
  simp only [same, Bool.and_eq_true, beq_iff_eq]

/-- The order of two visits makes no difference. -/
theorem same_comm (v w : Visit) : v.same w = w.same v := by
  rw [Bool.eq_iff_iff, same_iff, same_iff, eq_comm, eq_comm (a := v.sought)]

end Visit

namespace Trail

/-- A visit is admitted when it is not on the trail and, if it enters a file, not too many files
were entered. -/
theorem admits_iff {t : Trail} {v : Visit} :
    t.admits v = true ↔
      (v.sought.isExported = true → t.hops < hopLimit) ∧ t.holds v = false := by
  unfold admits
  cases v.sought.isExported <;> simp

/-- The number of entered files after a visit. -/
theorem hops_cons (v : Visit) (t : Trail) :
    hops (v :: t) = hops t + if v.sought.isExported = true then 1 else 0 := by
  simp only [hops, List.countP_cons]

end Trail

namespace Codebase

variable {code : Codebase}

/-- A question is taken up when nothing is looked for, or when the trail admits what is looked
for, which then goes onto the trail. -/
theorem enter?_eq_some_iff {trail inner : Trail} {q : Query} :
    code.enter? trail q = some inner ↔
      (code.visit? q = none ∧ inner = trail) ∨
        ∃ v, code.visit? q = some v ∧ trail.admits v = true ∧ inner = v :: trail := by
  unfold enter?
  cases code.visit? q with
  | none =>
    constructor
    · intro h
      exact .inl ⟨rfl, (Option.some.inj h).symm⟩
    · rintro (⟨-, rfl⟩ | ⟨v, hv, -⟩)
      · rfl
      · cases hv
  | some v =>
    constructor
    · intro h
      obtain ⟨ha, hi⟩ := Option.ite_none_right_eq_some.1 h
      exact .inr ⟨v, rfl, ha, (Option.some.inj hi).symm⟩
    · rintro (⟨hv, -⟩ | ⟨w, hw, ha, rfl⟩)
      · cases hv
      · cases hw
        exact if_pos ha

/-- An expression leads to the expressions that it is made of and to the name that it is. -/
theorem mem_asked_value {file : Path} {m : Module} {e : Expr} {ask : Query → Option Json}
    {r : Query} (h : r ∈ (code.plan (.value file m e)).asked ask) :
    (∃ part, r = .value file m part ∧ part.PartOf e) ∨
      ∃ name, r = .binding file m name ∧ e = .reference name := by
  cases e
  case object members =>
    left
    obtain ⟨p, hp, rfl⟩ := List.mem_map.1 h
    obtain ⟨member, hm, hp⟩ := List.mem_filterMap.1 hp
    rcases member with ⟨key | key | _ | _, e⟩ | _ | _ | _ <;> cases hp
    exact ⟨e, rfl, .member hm⟩
  case array items =>
    left
    obtain ⟨p, hp, hr⟩ := List.mem_filterMap.1 h
    obtain ⟨item, hi, hp⟩ := List.mem_filterMap.1 hp
    rcases item with e | _ | _
    case item =>
      have he : r = .value file m e := by
        cases e <;> cases hp <;> cases hr <;> rfl
      exact ⟨e, he, .item hi⟩
    all_goals cases hp <;> cases hr
  case reference name =>
    right
    simp only [plan, valuePlan, Plan.asked_first_singleton, List.mem_singleton] at h
    exact ⟨name, h, rfl⟩
  case negative e =>
    cases e <;> cases h
  all_goals
    first
    | cases h
    | left
      simp only [plan, valuePlan, Plan.asked_first_singleton, List.mem_singleton] at h
      exact ⟨_, h, by constructor⟩

/-- A name leads to its initial value or to what the module imports. -/
theorem mem_asked_binding {file : Path} {m : Module} {name : String} {ask : Query → Option Json}
    {r : Query} (h : r ∈ (code.plan (.binding file m name)).asked ask) :
    (∃ e, m.initial? name = some e ∧ r = .value file m e) ∨
      ∃ request exported, request ∈ m.sources ∧ r = .imported file request exported := by
  simp only [plan] at h
  split at h
  · next e he =>
    simp only [Plan.asked_first_singleton, List.mem_singleton] at h
    exact .inl ⟨e, he, h⟩
  · split at h
    · next request exported ho =>
      simp only [Plan.asked_first_singleton, List.mem_singleton] at h
      exact .inr ⟨request, exported, Module.mem_sources_of_importOrigin? ho, h⟩
    · cases h

/-- An import leads to an export of the module that it asks for. -/
theorem mem_asked_imported {file : Path} {request exported : String} {ask : Query → Option Json}
    {r : Query} (h : r ∈ (code.plan (.imported file request exported)).asked ask) :
    ∃ target m, code.target? file request = some target ∧ code.module? target = some m ∧
      r = .exported target m exported := by
  simp only [plan] at h
  split at h
  · cases h
  · next target ht =>
    split at h
    · next m hm =>
      simp only [Plan.asked_first_singleton, List.mem_singleton] at h
      exact ⟨target, m, ht, hm, h⟩
    · cases h

private theorem mem_of_mem_tried {ask : Query → Option Json} {questions : List Query} {r : Query}
    (h : r ∈ Plan.tried ask questions) : r ∈ questions := by
  induction questions with
  | nil => cases h
  | cons q rest ih =>
    simp only [Plan.tried] at h
    split at h
    · simp_all
    · rcases List.mem_cons.1 h with rfl | hr
      · exact List.mem_cons_self
      · exact List.mem_cons_of_mem _ (ih hr)

/-- An export leads to an expression or a name of its module, or to what the module exports from
elsewhere. -/
theorem mem_asked_exported {file : Path} {m : Module} {name : String} {ask : Query → Option Json}
    {r : Query} (h : r ∈ (code.plan (.exported file m name)).asked ask) :
    (∃ e, m.exportOrigin? name = some (.expression e) ∧ r = .value file m e) ∨
      (∃ inner, m.exportOrigin? name = some (.binding inner) ∧ r = .binding file m inner) ∨
      ∃ request exported, request ∈ m.sources ∧ r = .imported file request exported := by
  simp only [plan] at h
  split at h
  · next origin ho =>
    cases origin <;>
      simp only [originPlan, Plan.asked_first_singleton, List.mem_singleton] at h
    case expression e => exact .inl ⟨e, ho, h⟩
    case binding inner => exact .inr (.inl ⟨inner, ho, h⟩)
    case imported request exported =>
      exact .inr (.inr ⟨request, exported, Module.mem_sources_of_exportOrigin? ho, h⟩)
    case missing => cases h
  · obtain ⟨request, hr, rfl⟩ := List.mem_map.1 (mem_of_mem_tried h)
    exact .inr (.inr ⟨request, name, Module.mem_sources_of_starSources hr, rfl⟩)

/-- The calls that a call makes, in their order. -/
def calls (code : Codebase) (c : Call) : List Call :=
  match code.enter? c.trail c.query with
  | none => []
  | some inner => ((code.plan c.query).asked (code.answer inner)).map (Call.mk inner)

/-- Whether a call leads to another one, directly or through others. A call leads to itself. -/
def LeadsTo (code : Codebase) : Call → Call → Prop :=
  Relation.ReflTransGen fun c d => d ∈ code.calls c

/-- The calls of a call are under the trail that it entered. -/
theorem mem_calls_iff {c d : Call} :
    d ∈ code.calls c ↔
      code.enter? c.trail c.query = some d.trail ∧
        d.query ∈ (code.plan c.query).asked (code.answer d.trail) := by
  unfold calls
  cases code.enter? c.trail c.query with
  | none => simp
  | some inner =>
    simp only [List.mem_map, Option.some.injEq]
    constructor
    · rintro ⟨q, hq, rfl⟩
      exact ⟨rfl, hq⟩
    · rintro ⟨rfl, hq⟩
      exact ⟨d.query, hq, rfl⟩

/-- A call that has a single question to put makes a call with it. -/
theorem mem_calls_of_first {c : Call} {inner : Trail} {r : Query}
    (entered : code.enter? c.trail c.query = some inner)
    (next : code.plan c.query = .first [r]) : ⟨inner, r⟩ ∈ code.calls c := by
  rw [mem_calls_iff, next, Plan.asked_first_singleton]
  exact ⟨entered, List.mem_singleton_self r⟩

/-- What holds of a call, and wherever the only call leads that it makes, holds wherever it
leads. -/
theorem forall_leadsTo_of_asked {P : Call → Prop} {c : Call} {inner : Trail} {r : Query}
    (hc : P c) (he : code.enter? c.trail c.query = some inner)
    (hr : (code.plan c.query).asked (code.answer inner) = [r])
    (h : ∀ d, code.LeadsTo ⟨inner, r⟩ d → P d) : ∀ d, code.LeadsTo c d → P d := by
  intro d hd
  rcases hd.cases_head with rfl | ⟨e, made, hd⟩
  · exact hc
  · obtain ⟨he', hr'⟩ := mem_calls_iff.1 made
    rw [he, Option.some.injEq] at he'
    rw [← he', hr, List.mem_singleton] at hr'
    obtain ⟨trail, q⟩ := e
    subst he' hr'
    exact h d hd

/-- What holds of a call that makes no calls holds wherever it leads. -/
theorem forall_leadsTo_of_calls_eq_nil {P : Call → Prop} {c : Call} (hc : P c)
    (h : code.calls c = []) : ∀ d, code.LeadsTo c d → P d := by
  intro d hd
  rcases hd.cases_head with rfl | ⟨e, made, -⟩
  · exact hc
  · rw [h] at made
    cases made

end Codebase

/-- What decreases from a call to the calls that it makes. -/
noncomputable def Call.measure (c : Call) : Nat × Nat × Nat × Nat :=
  match c.query with
  | .value file m e => (c.trail.hopsLeft, c.trail.freshNames file m.declaredNames, 2, sizeOf e)
  | .binding file m _ => (c.trail.hopsLeft, c.trail.freshNames file m.declaredNames, 1, 0)
  | .imported .. => (c.trail.hopsLeft, 0, 0, 0)
  | .exported file m _ => (c.trail.hopsLeft, c.trail.freshNames file m.declaredNames, 3, 0)

namespace Codebase

variable {code : Codebase}

private abbrev Below : Nat × Nat × Nat × Nat → Nat × Nat × Nat × Nat → Prop :=
  Prod.Lex (· < ·) (Prod.Lex (· < ·) (Prod.Lex (· < ·) (· < ·)))

private theorem below_of_rank {hops fresh rank rank' size size' : Nat} (h : rank' < rank) :
    Below (hops, fresh, rank', size') (hops, fresh, rank, size) :=
  Prod.Lex.right _ (Prod.Lex.right _ (Prod.Lex.left _ _ h))

private theorem below_import {hops fresh rank size : Nat} (h : 0 < rank) :
    Below (hops, 0, 0, 0) (hops, fresh, rank, size) :=
  Prod.Lex.right _ (import_lower fresh h)

private theorem measure_lt_of_mem_calls {c d : Call} (h : d ∈ code.calls c) :
    Below d.measure c.measure := by
  obtain ⟨trail, q⟩ := c
  obtain ⟨inner, r⟩ := d
  obtain ⟨he, hr⟩ := mem_calls_iff.1 h
  cases q with
  | value file m e =>
    cases he
    rcases mem_asked_value hr with ⟨part, rfl, hp⟩ | ⟨name, rfl, -⟩
    · exact Prod.Lex.right _ (Prod.Lex.right _ (Prod.Lex.right _ hp.sizeOf_lt))
    · exact below_of_rank (by decide)
  | binding file m name =>
    obtain ⟨hv, -⟩ | ⟨v, hv, ha, rfl⟩ := enter?_eq_some_iff.1 he
    · cases hv
    · cases hv
      rcases mem_asked_binding hr with ⟨e, hi, rfl⟩ | ⟨request, exported, -, rfl⟩
      · simp only [Call.measure, Trail.hopsLeft_cons_binding]
        exact Prod.Lex.right _ (Prod.Lex.left _ _
          (Trail.freshNames_cons (Module.mem_declaredNames_of_initial? hi) ha))
      · simp only [Call.measure, Trail.hopsLeft_cons_binding]
        exact below_import (by decide)
  | imported file request exported =>
    obtain ⟨target, m, ht, hm, rfl⟩ := mem_asked_imported hr
    obtain ⟨hv, -⟩ | ⟨v, hv, ha, rfl⟩ := enter?_eq_some_iff.1 he
    · simp [visit?, ht] at hv
    · simp only [visit?, ht, Option.map_some, Option.some.injEq] at hv
      subst hv
      exact Prod.Lex.left _ _ (Trail.hopsLeft_cons_exported ha)
  | exported file m name =>
    cases he
    rcases mem_asked_exported hr with
      ⟨e, -, rfl⟩ | ⟨inner, -, rfl⟩ | ⟨request, exported, -, rfl⟩
    · exact below_of_rank (by decide)
    · exact below_of_rank (by decide)
    · exact below_import (by decide)

/-- No call leads on without end. -/
theorem calls_wellFounded (code : Codebase) :
    WellFounded fun d c : Call => d ∈ code.calls c := by
  have below : WellFounded Below :=
    (Prod.lex Nat.lt_wfRel (Prod.lex Nat.lt_wfRel (Prod.lex Nat.lt_wfRel Nat.lt_wfRel))).wf
  exact Subrelation.wf (fun h => measure_lt_of_mem_calls h) (InvImage.wf Call.measure below)

end Codebase

end PageIndex
