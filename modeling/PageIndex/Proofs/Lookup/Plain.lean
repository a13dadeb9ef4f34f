import PageIndex.Proofs.FileTree.Spelling
import PageIndex.Proofs.Lookup.Imports

/-!
# Lookups without a trail

A question has a plain answer when following plans alone answers it, with nothing kept on a trail
and nothing refused. Plain answers are derivations: they have a height, and a number of imports
that are nested in one another. Questions that lead to themselves have none.

A plain answer is unique, and its derivation can be made as low and as narrow as any other of
the same question (`Plain.meet`). It does not depend on the spelling of paths (`Plain.respell`).
-/

namespace PageIndex

open Script

namespace Plan

/-- The same plan with other questions. -/
def map (f : Query → Query) : Plan → Plan
  | known found => known found
  | object members => object (members.map fun m => (m.1, f m.2))
  | array items => array (items.map (Option.map f))
  | first questions => first (questions.map f)

variable {f : Query → Query} {ask : Query → Option Json}

private theorem tried_map (questions : List Query) :
    tried ask (questions.map f) = (tried (ask ∘ f) questions).map f := by
  induction questions with
  | nil => rfl
  | cons q rest ih =>
    simp only [List.map_cons, tried, Function.comp_apply]
    cases ask (f q) with
    | some v => rfl
    | none => rw [ih, List.map_cons]

/-- The questions that a plan with other questions puts. -/
theorem asked_map (p : Plan) : (p.map f).asked ask = (p.asked (ask ∘ f)).map f := by
  cases p with
  | known found => rfl
  | object members => simp [map, asked]
  | array items =>
    simp only [map, asked, List.filterMap_map, List.map_filterMap]
    congr 1
  | first questions => exact tried_map questions

/-- What a plan with other questions gives. -/
theorem result_map (p : Plan) : (p.map f).result ask = p.result (ask ∘ f) := by
  cases p with
  | known found => rfl
  | object members =>
    simp only [map, result, List.filterMap_map]
    rfl
  | array items =>
    simp only [map, result, List.filterMap_map]
    congr 2
    apply List.filterMap_congr
    intro item hi
    cases item <;> rfl
  | first questions => simp only [map, result, List.findSome?_map]

end Plan

namespace Query

/-- The number of files that a question enters by itself. -/
def hops : Query → Nat
  | .imported .. => 1
  | _ => 0

/-- The same question in another file. -/
def inFile (p : Path) : Query → Query
  | .value _ m e => .value p m e
  | .binding _ m name => .binding p m name
  | .imported _ request name => .imported p request name
  | .exported _ m name => .exported p m name

/-- A question that is put in its own file is the same. -/
@[simp] theorem inFile_file (q : Query) : q.inFile q.file = q := by
  cases q <;> rfl

/-- A question goes from file to file without a trace. -/
@[simp] theorem inFile_inFile (p p' : Path) (q : Query) : (q.inFile p).inFile p' = q.inFile p' := by
  cases q <;> rfl

/-- A question in another file enters as many files. -/
@[simp] theorem hops_inFile (p : Path) (q : Query) : (q.inFile p).hops = q.hops := by
  cases q <;> rfl

end Query

namespace Codebase

/-- `code.Plain height hops q a` says that `a` answers `q` when no trail is kept, by a derivation
that is at most `height` steps high and has at most `hops` imports nested in one another. -/
inductive Plain (code : Codebase) : Nat → Nat → Query → Option Json → Prop where
  | intro {height hops : Nat} {q : Query} {ask : Query → Option Json}
      (nested : ∀ r ∈ (code.plan q).asked ask, Plain code height hops r (ask r)) :
      Plain code (height + 1) (hops + q.hops) q ((code.plan q).result ask)

variable {code : Codebase} {height hops : Nat} {q : Query} {a : Option Json}

/-- A derivation may be said to be higher and wider than it is. -/
theorem Plain.mono {height' hops' : Nat} (h : code.Plain height hops q a)
    (hn : height ≤ height') (hk : hops ≤ hops') : code.Plain height' hops' q a := by
  induction h generalizing height' hops' with
  | @intro height hops q ask nested ih =>
    obtain ⟨n, rfl⟩ : ∃ n, height' = n + 1 := ⟨height' - 1, by omega⟩
    obtain ⟨k, rfl⟩ : ∃ k, hops' = k + q.hops := ⟨hops' - q.hops, by omega⟩
    exact .intro fun r hr => ih r hr (by omega) (by omega)

/-- The last step of a derivation. -/
theorem Plain.last (h : code.Plain height hops q a) :
    ∃ n k ask, height = n + 1 ∧ hops = k + q.hops ∧ a = (code.plan q).result ask ∧
      ∀ r ∈ (code.plan q).asked ask, code.Plain n k r (ask r) := by
  cases h with
  | @intro n k _ ask nested => exact ⟨n, k, ask, rfl, rfl, rfl, nested⟩

/-- A question whose answer is known has it plainly. -/
theorem Plain.known (h : code.plan q = .known a) :
    code.Plain (height + 1) (hops + q.hops) q a := by
  have nested : ∀ r ∈ (code.plan q).asked (fun _ => a), code.Plain height hops r a := by
    rw [h]
    intro r hr
    cases hr
  have result : (code.plan q).result (fun _ => a) = a := by
    rw [h]
    rfl
  exact result ▸ .intro nested

/-- A question that leads to one other question has its plain answers. -/
theorem Plain.first {r : Query} (h : code.plan q = .first [r]) (hr : code.Plain height hops r a) :
    code.Plain (height + 1) (hops + q.hops) q a := by
  have nested : ∀ s ∈ (code.plan q).asked (fun _ => a), code.Plain height hops s a := by
    rw [h, Plan.asked_first_singleton]
    intro s hs
    rw [List.mem_singleton.1 hs]
    exact hr
  have result : (code.plan q).result (fun _ => a) = a := by
    rw [h, Plan.result_first_singleton]
  exact result ▸ .intro nested

/-- A question that leads to one other question has no other plain answers than that one. -/
theorem Plain.of_first {r : Query} (hq : code.Plain height hops q a)
    (h : code.plan q = .first [r]) :
    ∃ n k, height = n + 1 ∧ hops = k + q.hops ∧ code.Plain n k r a := by
  obtain ⟨n, k, ask, hn, hk, rfl, nested⟩ := hq.last
  rw [h, Plan.asked_first_singleton] at nested
  rw [h, Plan.result_first_singleton]
  exact ⟨n, k, hn, hk, nested r List.mem_cons_self⟩

/-- A question whose plan is that of another one with other questions has the plain answer of the
other one, if these questions have the plain answers of those in their place. -/
theorem Plain.map {code' : Codebase} {q' : Query} {f : Query → Query}
    {ask ask' : Query → Option Json} (hp : code'.plan q' = (code.plan q).map f)
    (agree : ∀ r ∈ (code.plan q).asked ask, ask' (f r) = ask r)
    (nested : ∀ r ∈ (code.plan q).asked ask, code'.Plain height hops (f r) (ask r)) :
    code'.Plain (height + 1) (hops + q'.hops) q' ((code.plan q).result ask) := by
  have asked : (code.plan q).asked (ask' ∘ f) = (code.plan q).asked ask :=
    Plan.asked_congr fun r _ hr => agree r hr
  have result : (code.plan q).result ask = (code'.plan q').result ask' := by
    rw [hp, Plan.result_map]
    exact Plan.result_congr fun r hr _ => (agree r hr).symm
  rw [result]
  refine .intro fun r hr => ?_
  rw [hp, Plan.asked_map, asked] at hr
  obtain ⟨s, hs, rfl⟩ := List.mem_map.1 hr
  rw [agree s hs]
  exact nested s hs

/-- The last step of a derivation for a question whose plan is that of another one with other
questions. -/
theorem Plain.last_of_map {code' : Codebase} {q' : Query} {f : Query → Query}
    (h : code'.Plain height hops q' a) (hp : code'.plan q' = (code.plan q).map f) :
    ∃ n k ask, height = n + 1 ∧ hops = k + q'.hops ∧ a = (code.plan q).result ask ∧
      ∀ r ∈ (code.plan q).asked ask, code'.Plain n k (f r) (ask r) := by
  obtain ⟨n, k, ask', hn, hk, ha, nested⟩ := h.last
  rw [hp, Plan.result_map] at ha
  refine ⟨n, k, ask' ∘ f, hn, hk, ha, fun r hr => nested (f r) ?_⟩
  rw [hp, Plan.asked_map]
  exact List.mem_map_of_mem hr

/-- Two derivations for one question have the same answer, and it has a derivation that is as low
as the lower and as narrow as the narrower of the two. -/
theorem Plain.meet {height' hops' : Nat} {a' : Option Json} (h : code.Plain height hops q a)
    (h' : code.Plain height' hops' q a') :
    a = a' ∧ code.Plain (min height height') (min hops hops') q a := by
  induction h generalizing height' hops' a' with
  | @intro n k q ask nested ih =>
    obtain ⟨n', k', ask', rfl, rfl, rfl, nested'⟩ := h'.last
    have agree : ∀ r ∈ (code.plan q).asked ask, r ∈ (code.plan q).asked ask' → ask r = ask' r :=
      fun r hr hr' => (ih r hr (nested' r hr')).1
    have both := Plan.asked_congr agree
    refine ⟨Plan.result_congr agree, ?_⟩
    rw [Nat.add_min_add_right, Nat.add_min_add_right]
    exact .intro fun r hr => (ih r hr (nested' r (both ▸ hr))).2

/-- The plan for an expression asks the same of whatever module it is put to. -/
theorem valuePlan_map {f : Query → Query} {p p' : Path} {m m' : Module}
    (hv : ∀ e, f (.value p m e) = .value p' m' e)
    (hb : ∀ name, f (.binding p m name) = .binding p' m' name) (e : Expr) :
    valuePlan p' m' e = (valuePlan p m e).map f := by
  cases e
  case object members =>
    simp only [valuePlan, Plan.map, List.map_filterMap]
    congr 1
    apply List.filterMap_congr
    intro member hm
    rcases member with ⟨_ | _ | _ | _, e⟩ | _ | _ | _ <;> simp [memberPlan, hv]
  case array items =>
    simp only [valuePlan, Plan.map, List.map_filterMap]
    congr 1
    apply List.filterMap_congr
    intro item hi
    rcases item with e | _ | _
    case item => cases e <;> simp [itemPlan, hv]
    all_goals rfl
  case negative e => cases e <;> rfl
  all_goals simp [valuePlan, Plan.map, hv, hb]

private theorem plan_inFile {p' : Path} (hq : q.hops = 0) :
    code.plan (q.inFile p') = (code.plan q).map (Query.inFile p') := by
  cases q with
  | value p m e => exact valuePlan_map (fun _ => rfl) (fun _ => rfl) e
  | binding p m name =>
    simp only [Query.inFile, plan]
    split
    · rfl
    · split <;> rfl
  | imported p request name => cases hq
  | exported p m name =>
    simp only [Query.inFile, plan]
    split
    · next origin ho => cases origin <;> rfl
    · simp only [Plan.map, List.map_map]
      rfl

/-- A question that enters no file leads to questions about its own file. -/
theorem file_of_mem_asked {ask : Query → Option Json} {r : Query} (hq : q.hops = 0)
    (hr : r ∈ (code.plan q).asked ask) : r.file = q.file := by
  cases q with
  | value p m e =>
    rcases mem_asked_value hr with ⟨part, rfl, -⟩ | ⟨name, rfl, -⟩ <;> rfl
  | binding p m name =>
    rcases mem_asked_binding hr with ⟨e, -, rfl⟩ | ⟨request, inner, -, rfl⟩ <;> rfl
  | imported p request name => cases hq
  | exported p m name =>
    rcases mem_asked_exported hr with
      ⟨e, -, rfl⟩ | ⟨inner, -, rfl⟩ | ⟨request, inner, -, rfl⟩ <;> rfl

/-- A plain answer does not depend on how the file of the question is spelled. -/
theorem Plain.respell (hc : code.Coherent) (h : code.Plain height hops q a) {p : Path}
    (hp : q.file.components = p.components) : code.Plain height hops (q.inFile p) a := by
  induction h with
  | @intro n k q ask nested ih =>
    by_cases hq : q.hops = 0
    · -- The questions of the plan move along, and are answered as where they come from.
      let back : Query → Option Json := fun r => ask (r.inFile q.file)
      have agree : ∀ r ∈ (code.plan q).asked ask, back (r.inFile p) = ask r := by
        intro r hr
        simp only [back, Query.inFile_inFile, ← file_of_mem_asked hq hr, Query.inFile_file]
      rw [← Query.hops_inFile p q]
      refine .map (plan_inFile hq) agree fun r hr => ih r hr ?_
      rw [file_of_mem_asked hq hr, hp]
    · cases q with
      | imported p' request name =>
        have same : code.plan (.imported p' request name) =
            code.plan (.imported p request name) := by
          have ht : code.target? p' request = code.target? p request :=
            hc.target?_congr request hp
          simp only [plan, ht]
        rw [same] at nested ⊢
        exact Plain.intro (q := .imported p request name) nested
      | value p' m e => exact absurd rfl hq
      | binding p' m name => exact absurd rfl hq
      | exported p' m name => exact absurd rfl hq

end Codebase

end PageIndex
