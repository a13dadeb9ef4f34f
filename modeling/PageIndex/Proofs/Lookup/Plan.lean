import Mathlib.Data.List.Basic
import PageIndex.Lookup

/-!
# Lookups as questions

A lookup answers a question: the value of an expression, of a name, of an import or of an export.
What one question leads to does not depend on the trail, and is its plan: an answer that is known
at once, or further questions and how their answers are put together. The trail decides only
whether a question is taken up at all.

The main statement is `answer_eq`: a lookup enters the question, and then follows its plan under
the trail that it entered. `asked_congr` and `result_congr` say that the answers of the questions
that are really put decide which questions these are, and what the plan gives.
-/

namespace PageIndex

open Script

/-- A question that a lookup answers. -/
inductive Query where
  /-- The value of an expression of the module `m` in `file`. -/
  | value (file : Path) (m : Module) (e : Expr)
  /-- The value of a name of the module `m` in `file`. -/
  | binding (file : Path) (m : Module) (name : String)
  /-- The value of an export of the module that `file` asks for with `request`. -/
  | imported (file : Path) (request exported : String)
  /-- The value of an export of the module `m` in `file`. -/
  | exported (file : Path) (m : Module) (name : String)

/-- What has to be done to answer a question. -/
inductive Plan where
  /-- Nothing: the answer is known. -/
  | known (found : Option Json)
  /-- An object is made from the named questions that have a value. -/
  | object (members : List (String × Query))
  /-- An array is made from the questions that have a value, and from holes. -/
  | array (items : List (Option Query))
  /-- The first question that has a value is looked for, in this order. -/
  | first (questions : List Query)

namespace Plan

/-- The questions of a search, up to the first one that has a value. -/
def tried (ask : Query → Option Json) : List Query → List Query
  | [] => []
  | q :: rest =>
    match ask q with
    | some _ => [q]
    | none => q :: tried ask rest

/-- The questions that a plan puts, in their order, when `ask` answers them. -/
def asked (ask : Query → Option Json) : Plan → List Query
  | known _ => []
  | object members => members.map (·.2)
  | array items => items.filterMap id
  | first questions => tried ask questions

/-- What a plan gives when `ask` answers its questions. -/
def result (ask : Query → Option Json) : Plan → Option Json
  | known found => found
  | object members =>
    some (.obj (Members.ofList (members.filterMap fun m => (ask m.2).map (m.1, ·))))
  | array items =>
    some (.arr (items.filterMap fun
      | none => some .null
      | some q => ask q))
  | first questions => questions.findSome? ask

end Plan

namespace Codebase

/-- The named questions of the members of an object literal. Only a plain name counts. -/
def memberPlan (file : Path) (m : Module) : Member → Option (String × Query)
  | .property (.name key) e => some (key, .value file m e)
  | _ => none

/-- The questions of the items of an array literal. A name that stands alone is dropped. -/
def itemPlan (file : Path) (m : Module) : Item → Option (Option Query)
  | .hole => some none
  | .spread => none
  | .item (.reference _) => none
  | .item e => some (some (.value file m e))

/-- The plan for an expression. -/
def valuePlan (file : Path) (m : Module) : Expr → Plan
  | .object members => .object (members.filterMap (memberPlan file m))
  | .array items => .array (items.filterMap (itemPlan file m))
  | .str text => .known (some (.str text))
  | .template text => .known (some (.str text))
  | .num x => .known (numberValue? x)
  | .bool b => .known (some (.bool b))
  | .null => .known (some .null)
  | .reference name => .first [.binding file m name]
  | .negative (.num x) => .known (numberValue? x.neg)
  | .negative _ => .known none
  | .parenthesized e => .first [.value file m e]
  | .cast e => .first [.value file m e]
  | .satisfying e => .first [.value file m e]
  | .present e => .first [.value file m e]
  | .other _ => .known none

/-- The plan for something whose origin is known. -/
def originPlan (file : Path) (m : Module) : Origin → Plan
  | .expression e => .first [.value file m e]
  | .binding name => .first [.binding file m name]
  | .imported request exported => .first [.imported file request exported]
  | .missing => .known none

/-- The plan for a question. -/
def plan (code : Codebase) : Query → Plan
  | .value file m e => valuePlan file m e
  | .binding file m name =>
    match m.initial? name with
    | some e => .first [.value file m e]
    | none =>
      match m.importOrigin? name with
      | some (.imported request exported) => .first [.imported file request exported]
      | _ => .known none
  | .imported file request exported =>
    match code.target? file request with
    | none => .known none
    | some target =>
      match code.module? target with
      | some m => .first [.exported target m exported]
      | none => .known none
  | .exported file m name =>
    match m.exportOrigin? name with
    | some origin => originPlan file m origin
    | none => .first ((m.starSources name).map (.imported file · name))

/-- What is looked for while a question is worked on, if that is kept on the trail. -/
def visit? (code : Codebase) : Query → Option Visit
  | .value .. => none
  | .binding file _ name => some ⟨file, .binding name⟩
  | .imported file request exported =>
    (code.target? file request).map fun target => ⟨target, .exported exported⟩
  | .exported .. => none

/-- The trail under which a question is worked on. A question that the trail does not admit is
not taken up. -/
def enter? (code : Codebase) (trail : Trail) (q : Query) : Option Trail :=
  match code.visit? q with
  | none => some trail
  | some v => if trail.admits v = true then some (v :: trail) else none

/-- The answer of a lookup to a question. -/
def answer (code : Codebase) (trail : Trail) : Query → Option Json
  | .value file m e => code.valueOf trail file m e
  | .binding file m name => code.bindingValue? trail file m name
  | .imported file request exported => code.importedValue? trail file request exported
  | .exported file m name => code.exportValue? trail file m name

end Codebase

namespace Plan

variable {ask ask' : Query → Option Json}

/-- A search among one question has its answer. -/
@[simp] theorem result_first_singleton (q : Query) : (first [q]).result ask = ask q := by
  simp [result]

/-- A search among one question puts it. -/
@[simp] theorem asked_first_singleton (q : Query) : (first [q]).asked ask = [q] := by
  simp only [asked, tried]
  split <;> rfl

private theorem tried_congr {questions : List Query}
    (h : ∀ q ∈ tried ask questions, q ∈ tried ask' questions → ask q = ask' q) :
    tried ask questions = tried ask' questions ∧
      questions.findSome? ask = questions.findSome? ask' := by
  induction questions with
  | nil => exact ⟨rfl, rfl⟩
  | cons q rest ih =>
    have hq : ask q = ask' q := by
      apply h
      · simp only [tried]
        split <;> simp
      · simp only [tried]
        split <;> simp
    simp only [tried, List.findSome?_cons, ← hq] at h ⊢
    cases ha : ask q with
    | some v => simp
    | none =>
      simp only [ha, List.mem_cons] at h ⊢
      obtain ⟨ht, hf⟩ := ih fun r hr hr' => h r (.inr hr) (.inr hr')
      exact ⟨by rw [ht], hf⟩

/-- Two ways to answer put the same questions when they agree on the questions that both put. -/
theorem asked_congr {p : Plan} (h : ∀ q ∈ p.asked ask, q ∈ p.asked ask' → ask q = ask' q) :
    p.asked ask = p.asked ask' := by
  cases p with
  | known found => rfl
  | object members => rfl
  | array items => rfl
  | first questions => exact (tried_congr h).1

/-- Two ways to answer give the same when they agree on the questions that both put. -/
theorem result_congr {p : Plan} (h : ∀ q ∈ p.asked ask, q ∈ p.asked ask' → ask q = ask' q) :
    p.result ask = p.result ask' := by
  cases p with
  | known found => rfl
  | object members =>
    simp only [result, asked] at h ⊢
    congr 3
    apply List.filterMap_congr
    intro m hm
    have hq : m.2 ∈ members.map (·.2) := List.mem_map_of_mem hm
    rw [h m.2 hq hq]
  | array items =>
    simp only [result, asked] at h ⊢
    congr 2
    apply List.filterMap_congr
    intro item hi
    cases item with
    | none => rfl
    | some q =>
      have hq : q ∈ items.filterMap id := List.mem_filterMap.mpr ⟨some q, hi, rfl⟩
      exact h q hq hq
  | first questions => exact (tried_congr h).2

end Plan

namespace Codebase

variable (code : Codebase) (trail : Trail)

private theorem membersOf_eq_filterMap (file : Path) (m : Module) (members : List Member) :
    code.membersOf trail file m members =
      (members.filterMap (memberPlan file m)).filterMap fun p =>
        (code.answer trail p.2).map (p.1, ·) := by
  induction members with
  | nil => simp [membersOf]
  | cons member rest ih =>
    rcases member with ⟨key | key | _ | _, e⟩ | _ | _ | _
    case property.name =>
      have hp : memberPlan file m (.property (.name key) e) = some (key, .value file m e) := rfl
      rw [membersOf, List.filterMap_cons_some hp, List.filterMap_cons, ih]
      cases he : code.valueOf trail file m e <;> simp [answer, he]
    all_goals
      rw [membersOf, ih, List.filterMap_cons_none rfl]
      simp

private theorem itemsOf_eq_filterMap (file : Path) (m : Module) (items : List Item) :
    code.itemsOf trail file m items =
      (items.filterMap (itemPlan file m)).filterMap fun
        | none => some .null
        | some q => code.answer trail q := by
  induction items with
  | nil => simp [itemsOf]
  | cons item rest ih =>
    rcases item with e | _ | _
    case spread => rw [itemsOf, ih, List.filterMap_cons_none rfl]
    case hole =>
      rw [itemsOf, ih]
      simp [itemPlan]
    case item =>
      cases e
      case reference name => rw [itemsOf, ih, List.filterMap_cons_none rfl]
      all_goals
        rw [itemsOf, ih]
        · simp only [List.filterMap_cons, itemPlan, answer]
          split <;> simp [*]
        · simp

private theorem valueOf_eq_result (file : Path) (m : Module) (e : Expr) :
    code.valueOf trail file m e = (valuePlan file m e).result (code.answer trail) := by
  cases e
  case object members =>
    rw [valueOf, membersOf_eq_filterMap]
    rfl
  case array items =>
    rw [valueOf, itemsOf_eq_filterMap]
    rfl
  case negative e => cases e <;> simp [valueOf, valuePlan, Plan.result]
  all_goals simp [valueOf, valuePlan, Plan.result, answer]

private theorem originValue?_eq_result (file : Path) (m : Module) (origin : Origin) :
    code.originValue? trail file m origin =
      (originPlan file m origin).result (code.answer trail) := by
  cases origin <;> simp [originValue?, originPlan, Plan.result, answer]

private theorem bindingValue?_eq_result (file : Path) (m : Module) (name : String)
    (h : trail.admits ⟨file, .binding name⟩ = true) :
    code.bindingValue? trail file m name =
      (code.plan (.binding file m name)).result
        (code.answer (⟨file, .binding name⟩ :: trail)) := by
  rw [bindingValue?, dif_pos h]
  simp only [plan]
  split
  · next e he =>
    rw [he, Plan.result_first_singleton]
    rfl
  · next he =>
    rw [he]
    cases m.importOrigin? name with
    | none => rfl
    | some origin =>
      cases origin with
      | imported request exported =>
        rw [Plan.result_first_singleton]
        rfl
      | expression e => rfl
      | binding name => rfl
      | missing => rfl

private theorem importedValue?_eq_result (file : Path) (request exported : String) {target : Path}
    (ht : code.target? file request = some target)
    (h : trail.admits ⟨target, .exported exported⟩ = true) :
    code.importedValue? trail file request exported =
      (code.plan (.imported file request exported)).result
        (code.answer (⟨target, .exported exported⟩ :: trail)) := by
  rw [importedValue?, ht]
  simp only [plan, ht, dif_pos h]
  cases code.module? target with
  | none => rfl
  | some m =>
    simp only [Plan.result_first_singleton]
    rfl

private theorem exportValue?_eq_result (file : Path) (m : Module) (name : String) :
    code.exportValue? trail file m name =
      (code.plan (.exported file m name)).result (code.answer trail) := by
  rw [exportValue?]
  simp only [plan]
  cases m.exportOrigin? name with
  | some origin => exact originValue?_eq_result code trail file m origin
  | none =>
    simp only [Plan.result, List.findSome?_map]
    rfl

/-- A lookup enters its question, and then follows the plan under the trail that it entered. -/
theorem answer_eq (q : Query) :
    code.answer trail q =
      (code.enter? trail q).bind fun inner => (code.plan q).result (code.answer inner) := by
  cases q with
  | value file m e => exact valueOf_eq_result code trail file m e
  | binding file m name =>
    by_cases h : trail.admits ⟨file, .binding name⟩ = true
    · simp only [enter?, visit?, h, if_true]
      exact bindingValue?_eq_result code trail file m name h
    · simp only [answer, enter?, visit?, h]
      rw [bindingValue?, dif_neg h]
      rfl
  | imported file request exported =>
    cases ht : code.target? file request with
    | none =>
      simp only [answer, enter?, visit?, ht, Option.map_none, plan]
      rw [importedValue?, ht]
      rfl
    | some target =>
      by_cases h : trail.admits ⟨target, .exported exported⟩ = true
      · simp only [enter?, visit?, ht, Option.map_some, h, if_true]
        exact importedValue?_eq_result code trail file request exported ht h
      · simp only [answer, enter?, visit?, ht, Option.map_some, h]
        rw [importedValue?, ht]
        simp only [dif_neg h]
        rfl
  | exported file m name => exact exportValue?_eq_result code trail file m name

variable {code : Codebase} {trail : Trail}

/-- A question that looks for nothing is worked on under the same trail. -/
theorem enter?_of_visit?_eq_none {q : Query} (h : code.visit? q = none) :
    code.enter? trail q = some trail := by
  simp only [enter?, h]

/-- A question that looks for something is worked on when the trail admits that. -/
theorem enter?_of_visit?_eq_some {q : Query} {v : Visit} (h : code.visit? q = some v) :
    code.enter? trail q = if trail.admits v = true then some (v :: trail) else none := by
  simp only [enter?, h]

/-- A question that is taken up has the answer to the only question that it leads to. -/
theorem answer_of_first {q r : Query} {inner : Trail} (he : code.enter? trail q = some inner)
    (hp : code.plan q = .first [r]) : code.answer trail q = code.answer inner r := by
  rw [answer_eq, he, Option.bind_some, hp, Plan.result_first_singleton]

/-- A question that is not taken up has no answer. -/
theorem answer_of_refused {q : Query} (he : code.enter? trail q = none) :
    code.answer trail q = none := by
  rw [answer_eq, he, Option.bind_none]

end Codebase

end PageIndex
