import PageIndex.Proofs.Lookup.Plain

/-!
# What a lookup sees of a module

A lookup sees of a module only where it says that its names and exports come from. Two codebases in
which requests lead to the same files are alike where their modules say the same. The main statement
is `Alike.answer_eq`: a question has the same answer in both, under every trail, when they are alike
in all files that the question can lead to.
-/

namespace PageIndex

open Script

/-- Whether two modules say the same about where their names and exports come from. -/
structure Script.Module.Alike (m m' : Module) : Prop where
  initial?_eq (name : String) : m'.initial? name = m.initial? name
  importOrigin?_eq (name : String) : m'.importOrigin? name = m.importOrigin? name
  exportOrigin?_eq (name : String) : m'.exportOrigin? name = m.exportOrigin? name
  starSources_eq (name : String) : m'.starSources name = m.starSources name

/-- A module says the same as itself. -/
theorem Script.Module.Alike.refl (m : Module) : m.Alike m :=
  ⟨fun _ => rfl, fun _ => rfl, fun _ => rfl, fun _ => rfl⟩

namespace Query

/-- The same question put to another module. -/
def inModule (m : Module) : Query → Query
  | .value p _ e => .value p m e
  | .binding p _ name => .binding p m name
  | .imported p request name => .imported p request name
  | .exported p _ name => .exported p m name

/-- The same question put to the module that a codebase has in the file of the question. -/
def inCode (code : Codebase) (q : Query) : Query :=
  match code.module? q.file with
  | some m => q.inModule m
  | none => q

variable {code : Codebase} {p : Path} {m : Module}

/-- A question about an expression in another codebase. -/
theorem inCode_value (hm : code.module? p = some m) (m' : Module) (e : Expr) :
    (value p m' e).inCode code = .value p m e := by
  simp only [inCode, file, hm, inModule]

/-- A question about a name in another codebase. -/
theorem inCode_binding (hm : code.module? p = some m) (m' : Module) (name : String) :
    (binding p m' name).inCode code = .binding p m name := by
  simp only [inCode, file, hm, inModule]

/-- A question about an export in another codebase. -/
theorem inCode_exported (hm : code.module? p = some m) (m' : Module) (name : String) :
    (exported p m' name).inCode code = .exported p m name := by
  simp only [inCode, file, hm, inModule]

/-- A question about an import is put to no module. -/
@[simp] theorem inCode_imported (code : Codebase) (p : Path) (request name : String) :
    (imported p request name).inCode code = .imported p request name := by
  unfold inCode
  split <;> rfl

/-- A question in another codebase enters as many files. -/
@[simp] theorem hops_inCode (code : Codebase) (q : Query) : (q.inCode code).hops = q.hops := by
  unfold inCode
  split
  · cases q <;> rfl
  · rfl

/-- A question that is put to the module in its file comes back from another codebase. -/
theorem inCode_inCode {code' : Codebase} {q : Query} (h : code.Posed q) :
    (q.inCode code').inCode code = q := by
  have back (m' : Module) : (q.inModule m').inCode code = q := by
    cases q with
    | value p m e => exact inCode_value h m' e
    | binding p m name => exact inCode_binding h m' name
    | imported p request name => exact inCode_imported code p request name
    | exported p m name => exact inCode_exported h m' name
  have stays : q.inCode code = q := by
    cases q with
    | value p m e => exact inCode_value h m e
    | binding p m name => exact inCode_binding h m name
    | imported p request name => exact inCode_imported code p request name
    | exported p m name => exact inCode_exported h m name
  rw [inCode.eq_def code']
  split
  · exact back _
  · exact stays

end Query

namespace Codebase

section Plans

variable {code code' : Codebase} {p : Path} {m m' : Module} {name : String}

/-- An expression asks the same of the module of another codebase. -/
theorem plan_value_inCode (hm : code'.module? p = some m') (e : Expr) :
    code'.plan (.value p m' e) =
      (code.plan (.value p m e)).map (Query.inCode code') :=
  valuePlan_map (Query.inCode_value hm m) (Query.inCode_binding hm m) e

/-- A name asks the same of a module in which it comes from the same. -/
theorem plan_binding_inCode (hm : code'.module? p = some m')
    (hi : m'.initial? name = m.initial? name) (ho : m'.importOrigin? name = m.importOrigin? name) :
    code'.plan (.binding p m' name) =
      (code.plan (.binding p m name)).map (Query.inCode code') := by
  simp only [plan, hi, ho]
  cases m.initial? name with
  | some e => simp [Plan.map, Query.inCode_value hm]
  | none =>
    cases m.importOrigin? name with
    | none => rfl
    | some origin => cases origin <;> simp [Plan.map]

/-- Something whose origin is known asks the same of the module of another codebase. -/
theorem originPlan_inCode (hm : code'.module? p = some m') (m : Module) (origin : Origin) :
    originPlan p m' origin = (originPlan p m origin).map (Query.inCode code') := by
  cases origin <;> simp [originPlan, Plan.map, Query.inCode_value hm, Query.inCode_binding hm]

/-- An export asks the same of a module in which it comes from the same. -/
theorem plan_exported_inCode (hm : code'.module? p = some m')
    (ho : m'.exportOrigin? name = m.exportOrigin? name)
    (hs : m'.starSources name = m.starSources name) :
    code'.plan (.exported p m' name) =
      (code.plan (.exported p m name)).map (Query.inCode code') := by
  simp only [plan, ho, hs]
  cases m.exportOrigin? name with
  | none => simp [Plan.map, Function.comp_def]
  | some origin => exact originPlan_inCode hm m origin

/-- An import asks the same of another codebase in which the request leads to the same file, if the
file holds a module in both or in neither. -/
theorem plan_imported_inCode {request : String}
    (ht : code'.target? p request = code.target? p request)
    (hm : ∀ target, code.target? p request = some target →
      (code'.module? target).isSome = (code.module? target).isSome) :
    code'.plan (.imported p request name) =
      (code.plan (.imported p request name)).map (Query.inCode code') := by
  simp only [plan, ht]
  cases hr : code.target? p request with
  | none => rfl
  | some target =>
    have both := hm target hr
    cases h : code.module? target <;> cases h' : code'.module? target <;>
      simp only [h, h', Option.isSome_some, Option.isSome_none] at both
    case none.none => simp [h, h', Plan.map]
    case some.some m m' => simp [h, h', Plan.map, Query.inCode_exported h']
    all_goals cases both

end Plans

/-- Questions that look for the same as others, and have their plans with other questions, have
their answers. The questions that they lead to are again such questions, or are known to have the
same answers. -/
theorem answer_of_plan_map {code code' : Codebase} {f : Query → Query} {P : Query → Prop}
    (sought : ∀ q, P q → code'.visit? (f q) = code.visit? q)
    (planned : ∀ q, P q → code'.plan (f q) = (code.plan q).map f)
    (kept : ∀ q ask, P q → ∀ r ∈ (code.plan q).asked ask,
      P r ∨ ∀ trail, code'.answer trail (f r) = code.answer trail r)
    (trail : Trail) {q : Query} (hq : P q) : code'.answer trail (f q) = code.answer trail q := by
  induction hc : (⟨trail, q⟩ : Call) using code.calls_wellFounded.induction
    generalizing trail q with
  | _ c ih =>
    subst hc
    have entered : code'.enter? trail (f q) = code.enter? trail q := by
      simp only [enter?, sought q hq]
    rw [answer_eq, answer_eq, entered]
    cases he : code.enter? trail q with
    | none => rfl
    | some inner =>
      rw [Option.bind_some, Option.bind_some, planned q hq, Plan.result_map]
      refine (Plan.result_congr fun r hr _ => ?_).symm
      rcases kept q _ hq r hr with again | known
      · exact (ih ⟨inner, r⟩ (mem_calls_iff.2 ⟨he, hr⟩) inner again rfl).symm
      · exact (known inner).symm

/-- Whether two codebases are alike in the given files. Requests lead to the same files, the modules
in the given files say the same, and these files import only each other. -/
structure Alike (within : Set Path) (code code' : Codebase) : Prop where
  target?_eq (p : Path) (request : String) : code'.target? p request = code.target? p request
  module?_rel {p : Path} : p ∈ within → Option.Rel Module.Alike (code.module? p) (code'.module? p)
  closed {p p' : Path} : p ∈ within → code.Imports p p' → p' ∈ within

namespace Alike

variable {within : Set Path} {code code' : Codebase} {p : Path} {q : Query} {m m' : Module}

/-- What is in a file of one codebase is like what is in it in the other. -/
theorem module?_of_module? (h : code.Alike within code') (hp : p ∈ within)
    (hm : code.module? p = some m) : ∃ m', code'.module? p = some m' ∧ m.Alike m' := by
  have related := h.module?_rel hp
  rw [hm] at related
  cases hm' : code'.module? p with
  | none =>
    rw [hm'] at related
    cases related
  | some m' =>
    rw [hm'] at related
    cases related with
    | some alike => exact ⟨m', rfl, alike⟩

/-- A question that is put to the module in its file is put to a module of the other codebase. -/
private theorem plan_inCode (h : code.Alike within code') (hq : code.Posed q)
    (hw : q.file ∈ within) :
    code'.plan (q.inCode code') = (code.plan q).map (Query.inCode code') := by
  cases q with
  | value p m e =>
    obtain ⟨m', hm', -⟩ := h.module?_of_module? (p := p) hw hq
    rw [Query.inCode_value hm']
    exact plan_value_inCode hm' e
  | binding p m name =>
    obtain ⟨m', hm', alike⟩ := h.module?_of_module? (p := p) hw hq
    rw [Query.inCode_binding hm']
    exact plan_binding_inCode hm' (alike.initial?_eq name) (alike.importOrigin?_eq name)
  | imported p request name =>
    obtain ⟨m, hm, hs⟩ := hq
    rw [Query.inCode_imported]
    refine plan_imported_inCode (h.target?_eq p request) fun target ht => ?_
    have related := h.module?_rel (h.closed hw ⟨m, request, hm, hs, ht⟩)
    cases hc : code.module? target <;> cases hc' : code'.module? target <;>
      rw [hc, hc'] at related <;> first | rfl | cases related
  | exported p m name =>
    obtain ⟨m', hm', alike⟩ := h.module?_of_module? (p := p) hw hq
    rw [Query.inCode_exported hm']
    exact plan_exported_inCode hm' (alike.exportOrigin?_eq name) (alike.starSources_eq name)

/-- A question looks for the same in both codebases. -/
private theorem visit?_inCode (h : code.Alike within code') (q : Query) :
    code'.visit? (q.inCode code') = code.visit? q := by
  cases q with
  | imported p request name => simp only [Query.inCode_imported, visit?, h.target?_eq]
  | _ =>
    unfold Query.inCode
    split <;> rfl

/-- A question has the same answer in two codebases that are alike wherever it can lead. -/
theorem answer_eq (h : code.Alike within code') (trail : Trail) (hq : code.Posed q)
    (hw : q.file ∈ within) :
    code'.answer trail (q.inCode code') = code.answer trail q := by
  refine answer_of_plan_map (P := fun q => code.Posed q ∧ q.file ∈ within)
    (fun q _ => h.visit?_inCode q) (fun q hq => h.plan_inCode hq.1 hq.2) ?_ trail ⟨hq, hw⟩
  -- The questions that are put stay in the files in which the codebases are alike.
  rintro q ask ⟨hq, hw⟩ r hr
  obtain ⟨posed, same | imports⟩ := hq.of_asked hr
  · rw [← same] at hw
    exact .inl ⟨posed, hw⟩
  · exact .inl ⟨posed, h.closed hw imports⟩

/-- A name has the same value in two codebases that are alike wherever it can lead. -/
theorem bindingValue?_eq (h : code.Alike within code') (hp : p ∈ within)
    (hm : code.module? p = some m) (hm' : code'.module? p = some m') (trail : Trail)
    (name : String) :
    code'.bindingValue? trail p m' name = code.bindingValue? trail p m name := by
  have posed : code.Posed (.binding p m name) := hm
  have same := h.answer_eq trail posed hp
  rw [Query.inCode_binding hm'] at same
  exact same

/-- An export has the same value in two codebases that are alike wherever it can lead. -/
theorem exportValue?_eq (h : code.Alike within code') (hp : p ∈ within)
    (hm : code.module? p = some m) (hm' : code'.module? p = some m') (trail : Trail)
    (name : String) :
    code'.exportValue? trail p m' name = code.exportValue? trail p m name := by
  have posed : code.Posed (.exported p m name) := hm
  have same := h.answer_eq trail posed hp
  rw [Query.inCode_exported hm'] at same
  exact same

end Alike

end Codebase

end PageIndex
