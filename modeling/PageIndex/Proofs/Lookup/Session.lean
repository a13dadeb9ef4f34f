import Mathlib.Data.List.Basic
import PageIndex.Page.Analysis
import PageIndex.Proofs.Lookup.Calls

/-!
# Sessions

Lookups that share one trail, as they are carried out: each step puts what it looks for onto the
trail and takes it off again, and leaves the trail to the next step. A session also counts the
calls that are made. What one call does is written down with the further calls left open; a
session then carries calls out with room for a number of calls nested in one another, and has no
outcome when the room does not suffice.

The main statements are `lookup_terminates` and `lookup_leaves_no_trace`. For every lookup there
is room enough. It then has an outcome after finitely many calls, which is the answer under the
trail it began with, and it leaves that trail behind. So lookups that share a session do not see
each other.
-/

namespace PageIndex

open Script

/-- What a session keeps from one step to the next. -/
structure SessionState where
  /-- What is looked for right now, the latest first. -/
  trail : Trail
  /-- The number of calls that were made. -/
  calls : Nat

/-- A step of a session. A step that runs out of room has no outcome. -/
abbrev Session (α : Type) : Type :=
  StateT SessionState Option α

namespace Session

/-- Counts a call. -/
def count : Session Unit :=
  fun s => some ((), { s with calls := s.calls + 1 })

/-- Puts a visit onto the trail, if the trail admits it, and says whether it did. -/
def enter (v : Visit) : Session Bool :=
  fun s =>
    if s.trail.admits v = true then some (true, { s with trail := v :: s.trail })
    else some (false, s)

/-- Takes the latest visit off the trail. -/
def leave : Session Unit :=
  fun s => some ((), { s with trail := s.trail.tail })

section Steps

variable (code : Codebase) (call : Query → Session (Option Json))

/-- Looks up the value of an expression of the module `m` in `file`. -/
def value (file : Path) (m : Module) : Expr → Session (Option Json)
  | .object members => do
    let found ← members.mapM fun
      | .property (.name key) e => do return (← call (.value file m e)).map (key, ·)
      | _ => return none
    return some (.obj (Members.ofList (found.filterMap id)))
  | .array items => do
    let found ← items.mapM fun
      | .hole => return some .null
      | .spread => return none
      | .item (.reference _) => return none
      | .item e => call (.value file m e)
    return some (.arr (found.filterMap id))
  | .str text => return some (.str text)
  | .template text => return some (.str text)
  | .num x => return numberValue? x
  | .bool b => return some (.bool b)
  | .null => return some .null
  | .reference name => call (.binding file m name)
  | .negative (.num x) => return numberValue? x.neg
  | .negative _ => return none
  | .parenthesized e => call (.value file m e)
  | .cast e => call (.value file m e)
  | .satisfying e => call (.value file m e)
  | .present e => call (.value file m e)
  | .other _ => return none

/-- Looks up where a name comes from: its first initial value, or else its first import. -/
def declared (file : Path) (m : Module) (name : String) : Session (Option Json) :=
  match m.initial? name with
  | some e => call (.value file m e)
  | none =>
    match m.importOrigin? name with
    | some (.imported request exported) => call (.imported file request exported)
    | _ => return none

/-- Looks up the value of a name of the module `m` in `file`. -/
def binding (file : Path) (m : Module) (name : String) : Session (Option Json) := do
  if ← enter ⟨file, .binding name⟩ then
    let found ← declared call file m name
    leave
    return found
  else return none

/-- Looks up an export of the module in `file`, if there is one. -/
def exportedIn (file : Path) (m? : Option Module) (name : String) : Session (Option Json) :=
  match m? with
  | some m => call (.exported file m name)
  | none => return none

/-- Looks up an export of the module that `file` asks for with `request`. A file that gives no
module is entered and left again. -/
def imported (file : Path) (request exported : String) : Session (Option Json) := do
  match code.target? file request with
  | none => return none
  | some target =>
    if ← enter ⟨target, .exported exported⟩ then
      let found ← exportedIn call target (code.module? target) exported
      leave
      return found
    else return none

/-- Looks up an export of the module `m` in `file`. The modules whose exports are exported again
are tried one after the other, until one has a value. -/
def exported (file : Path) (m : Module) (name : String) : Session (Option Json) :=
  match m.exportOrigin? name with
  | some (.expression e) => call (.value file m e)
  | some (.binding inner) => call (.binding file m inner)
  | some (.imported request inner) => call (.imported file request inner)
  | some .missing => return none
  | none => (m.starSources name).findSomeM? fun request => call (.imported file request name)

/-- What one call does to answer a question. -/
def step : Query → Session (Option Json)
  | .value file m e => value call file m e
  | .binding file m name => binding call file m name
  | .imported file request name => imported code call file request name
  | .exported file m name => exported call file m name

end Steps

/-- Carries out a call, with room for so many calls nested in one another. -/
def perform (code : Codebase) : (room : Nat) → Query → Session (Option Json)
  | 0, _ => fun _ => none
  | room + 1, q => do
    count
    step code (perform code room) q

/-- Makes the record of a page. The metadata is looked up in the session in which the
configuration was not found. -/
def record (code : Codebase) (room : Nat) (page : PageFile) (m : Module) :
    Session PageRecord := do
  match ← perform code room (.exported page.path m Page.primaryExport) with
  | some config => return Page.foundRecord page m config
  | none =>
    match ← perform code room (.exported page.path m Page.fallbackExport) with
    | some metadata => return Page.madeUpRecord page m metadata
    | none => return Page.emptyRecord page m

/-- A step returns `a` under a trail: with room enough it ends after a fixed number of calls, with
the outcome `a` and with the same trail, and with less room it has no outcome. -/
def Returns {α : Type} (step : (room : Nat) → Session α) (trail : Trail) (a : α) : Prop :=
  ∃ enough made, ∀ room calls, step room ⟨trail, calls⟩ =
    if enough ≤ room then some (a, ⟨trail, calls + made⟩) else none

section Returns

variable {α β : Type} {trail : Trail} {a : α} {b : β}

private theorem bind_apply (step : Session α) (next : α → Session β) (s : SessionState) :
    (step >>= next) s = (step s).bind fun p => next p.1 p.2 :=
  rfl

/-- What is known is returned without a call. -/
theorem returns_pure : Returns (fun _ => pure a) trail a :=
  ⟨0, 0, fun _ _ => rfl⟩

/-- Steps that return under one trail return one after the other. -/
theorem Returns.bind {step : Nat → Session α} {next : Nat → α → Session β}
    (h : Returns step trail a) (hn : Returns (fun room => next room a) trail b) :
    Returns (fun room => step room >>= next room) trail b := by
  obtain ⟨enough, made, hs⟩ := h
  obtain ⟨enough', more, ht⟩ := hn
  refine ⟨max enough enough', made + more, fun room calls => ?_⟩
  have first := hs room calls
  have second : next room a ⟨trail, calls + made⟩ = _ := ht room (calls + made)
  show (step room >>= next room) ⟨trail, calls⟩ = _
  rw [bind_apply, first]
  by_cases hr : enough ≤ room
  · rw [if_pos hr, Option.bind_some, second, Nat.add_assoc]
    by_cases hr' : enough' ≤ room
    · rw [if_pos hr', if_pos (Nat.max_le.2 ⟨hr, hr'⟩)]
    · rw [if_neg hr', if_neg fun h => hr' (Nat.max_le.1 h).2]
  · rw [if_neg hr, Option.bind_none, if_neg fun h => hr (Nat.max_le.1 h).1]

/-- What is done between entering and leaving a visit leaves no trace, and is left out when the
visit is not admitted. -/
theorem returns_guarded {v : Visit} {body : Nat → Session (Option β)} {found : Option β}
    (h : trail.admits v = true → Returns body (v :: trail) found) :
    Returns
      (fun room => do
        if ← enter v then
          let found ← body room
          leave
          return found
        else return none)
      trail (if trail.admits v = true then found else none) := by
  by_cases ha : trail.admits v = true
  · obtain ⟨enough, made, hb⟩ := h ha
    refine ⟨enough, made, fun room calls => ?_⟩
    simp only [bind_apply, enter, ha, if_true, Option.bind_some, hb room calls]
    split <;> rfl
  · refine ⟨0, 0, fun room calls => ?_⟩
    simp only [bind_apply, enter, ha]
    rfl

/-- Steps for the items of a list return what each of them returns. -/
theorem returns_mapM {γ : Type} {l : List γ} {step : Nat → γ → Session α} {f : γ → α}
    (h : ∀ x ∈ l, Returns (fun room => step room x) trail (f x)) :
    Returns (fun room => l.mapM (step room)) trail (l.map f) := by
  induction l with
  | nil => exact returns_pure
  | cons x rest ih =>
    simp only [List.mapM_cons]
    apply (h x List.mem_cons_self).bind
    apply (ih fun y hy => h y (List.mem_cons_of_mem _ hy)).bind
    exact returns_pure

end Returns

section Step

variable {code : Codebase} {call : Nat → Query → Session (Option Json)} {trail : Trail}

private theorem returns_search {file : Path} {name : String} {sources : List String}
    (h : ∀ q ∈ Plan.tried (code.answer trail) (sources.map (.imported file · name)),
      Returns (fun room => call room q) trail (code.answer trail q)) :
    Returns
      (fun room => sources.findSomeM? fun request => call room (.imported file request name))
      trail ((sources.map (.imported file · name)).findSome? (code.answer trail)) := by
  induction sources with
  | nil => exact returns_pure
  | cons request rest ih =>
    simp only [List.map_cons, Plan.tried, List.findSome?_cons] at h ⊢
    simp only [List.findSomeM?]
    cases ha : code.answer trail (.imported file request name) with
    | some v =>
      rw [ha] at h
      have hq := h (.imported file request name) List.mem_cons_self
      rw [ha] at hq
      exact hq.bind returns_pure
    | none =>
      rw [ha] at h
      have hq := h (.imported file request name) List.mem_cons_self
      rw [ha] at hq
      exact hq.bind (ih fun q hr => h q (List.mem_cons_of_mem _ hr))

private theorem returns_members {file : Path} {m : Module} {members : List Member}
    (h : ∀ q ∈ (code.plan (.value file m (.object members))).asked (code.answer trail),
      Returns (fun room => call room q) trail (code.answer trail q)) :
    Returns
      (fun room => members.mapM fun
        | .property (.name key) e => do return (← call room (.value file m e)).map (key, ·)
        | _ => return none)
      trail
      (members.map fun member => (Codebase.memberPlan file m member).bind fun p =>
        (code.answer trail p.2).map (p.1, ·)) := by
  apply returns_mapM
  intro member hm
  rcases member with ⟨key | _ | _ | _, e⟩ | _ | _ | _
  case property.name =>
    have hq : .value file m e ∈
        (code.plan (.value file m (.object members))).asked (code.answer trail) :=
      List.mem_map.2 ⟨(key, .value file m e), List.mem_filterMap.2 ⟨_, hm, rfl⟩, rfl⟩
    exact (h _ hq).bind returns_pure
  all_goals exact returns_pure

private theorem returns_items {file : Path} {m : Module} {items : List Item}
    (h : ∀ q ∈ (code.plan (.value file m (.array items))).asked (code.answer trail),
      Returns (fun room => call room q) trail (code.answer trail q)) :
    Returns
      (fun room => items.mapM fun
        | .hole => return some .null
        | .spread => return none
        | .item (.reference _) => return none
        | .item e => call room (.value file m e))
      trail
      (items.map fun item => (Codebase.itemPlan file m item).bind fun
        | none => some .null
        | some q => code.answer trail q) := by
  apply returns_mapM
  intro item hi
  rcases item with e | _ | _
  case item =>
    have hq (hp : Codebase.itemPlan file m (.item e) = some (some (.value file m e))) :
        .value file m e ∈
          (code.plan (.value file m (.array items))).asked (code.answer trail) :=
      List.mem_filterMap.2 ⟨_, List.mem_filterMap.2 ⟨_, hi, hp⟩, rfl⟩
    cases e
    case reference name => exact returns_pure
    all_goals exact h _ (hq rfl)
  all_goals exact returns_pure

private theorem returns_first {q : Query}
    (h : ∀ r ∈ (Plan.first [q]).asked (code.answer trail),
      Returns (fun room => call room r) trail (code.answer trail r)) :
    Returns (fun room => call room q) trail ((Plan.first [q]).result (code.answer trail)) := by
  rw [Plan.asked_first_singleton] at h
  rw [Plan.result_first_singleton]
  exact h q List.mem_cons_self

private theorem returns_value {file : Path} {m : Module} {e : Expr}
    (h : ∀ q ∈ (code.plan (.value file m e)).asked (code.answer trail),
      Returns (fun room => call room q) trail (code.answer trail q)) :
    Returns (fun room => value (call room) file m e) trail
      ((code.plan (.value file m e)).result (code.answer trail)) := by
  cases e
  case object members =>
    apply (returns_members h).bind
    simp only [Codebase.plan, Codebase.valuePlan, Plan.result, List.filterMap_map,
      List.filterMap_filterMap]
    exact returns_pure
  case array items =>
    apply (returns_items h).bind
    simp only [Codebase.plan, Codebase.valuePlan, Plan.result, List.filterMap_map,
      List.filterMap_filterMap]
    exact returns_pure
  case negative e => cases e <;> exact returns_pure
  all_goals
    first
    | exact returns_pure
    | exact returns_first h

private theorem returns_declared {file : Path} {m : Module} {name : String}
    (h : ∀ q ∈ (code.plan (.binding file m name)).asked (code.answer trail),
      Returns (fun room => call room q) trail (code.answer trail q)) :
    Returns (fun room => declared (call room) file m name) trail
      ((code.plan (.binding file m name)).result (code.answer trail)) := by
  unfold declared
  simp only [Codebase.plan] at h ⊢
  cases hi : m.initial? name with
  | some e =>
    rw [hi] at h
    exact returns_first h
  | none =>
    rw [hi] at h
    cases ho : m.importOrigin? name with
    | none => exact returns_pure
    | some origin =>
      rw [ho] at h
      cases origin with
      | imported request exported => exact returns_first h
      | expression e => exact returns_pure
      | binding inner => exact returns_pure
      | missing => exact returns_pure

private theorem returns_exported {file : Path} {m : Module} {name : String}
    (h : ∀ q ∈ (code.plan (.exported file m name)).asked (code.answer trail),
      Returns (fun room => call room q) trail (code.answer trail q)) :
    Returns (fun room => exported (call room) file m name) trail
      ((code.plan (.exported file m name)).result (code.answer trail)) := by
  unfold exported
  simp only [Codebase.plan] at h ⊢
  cases ho : m.exportOrigin? name with
  | some origin =>
    rw [ho] at h
    cases origin with
    | expression e => exact returns_first h
    | binding inner => exact returns_first h
    | imported request exported => exact returns_first h
    | missing => exact returns_pure
  | none =>
    rw [ho] at h
    exact returns_search h

private theorem returns_exportedIn {file target : Path} {request name : String}
    (ht : code.target? file request = some target)
    (h : ∀ q ∈ (code.plan (.imported file request name)).asked (code.answer trail),
      Returns (fun room => call room q) trail (code.answer trail q)) :
    Returns (fun room => exportedIn (call room) target (code.module? target) name) trail
      ((code.plan (.imported file request name)).result (code.answer trail)) := by
  simp only [Codebase.plan, ht] at h ⊢
  cases hm : code.module? target with
  | none => exact returns_pure
  | some m =>
    rw [hm] at h
    exact returns_first h

private theorem bind_ite {v : Visit} {result : Trail → Option Json} :
    (if trail.admits v = true then some (v :: trail) else none).bind result =
      if trail.admits v = true then result (v :: trail) else none := by
  split <;> rfl

/-- A call returns the answer to its question when the calls that it makes return the answers to
theirs, under the trail that it enters. -/
theorem step_returns {q : Query}
    (h : ∀ inner, code.enter? trail q = some inner →
      ∀ r ∈ (code.plan q).asked (code.answer inner),
        Returns (fun room => call room r) inner (code.answer inner r)) :
    Returns (fun room => step code (call room) q) trail (code.answer trail q) := by
  rw [Codebase.answer_eq]
  cases q with
  | value file m e => exact returns_value (h trail rfl)
  | exported file m name => exact returns_exported (h trail rfl)
  | binding file m name =>
    have hv : code.visit? (.binding file m name) = some ⟨file, .binding name⟩ := rfl
    rw [Codebase.enter?_of_visit?_eq_some hv, bind_ite]
    apply returns_guarded
    intro ha
    exact returns_declared (h _ (Codebase.enter?_eq_some_iff.2 (.inr ⟨_, hv, ha, rfl⟩)))
  | imported file request exported =>
    simp only [step, imported]
    cases ht : code.target? file request with
    | none =>
      simp only [Codebase.enter?, Codebase.visit?, Codebase.plan, ht, Option.map_none]
      exact returns_pure
    | some target =>
      have hv : code.visit? (.imported file request exported) =
          some ⟨target, .exported exported⟩ := by
        rw [Codebase.visit?, ht, Option.map_some]
      rw [Codebase.enter?_of_visit?_eq_some hv, bind_ite]
      apply returns_guarded
      intro ha
      exact returns_exportedIn ht (h _ (Codebase.enter?_eq_some_iff.2 (.inr ⟨_, hv, ha, rfl⟩)))

end Step

section Perform

variable {code : Codebase} {trail : Trail} {q : Query} {a : Option Json}

/-- What counts a call and then goes on with less room returns what it goes on with returns. -/
theorem returns_counted {run body : (room : Nat) → Session (Option Json)}
    (without : ∀ calls, run 0 ⟨trail, calls⟩ = none)
    (counts : ∀ room calls, run (room + 1) ⟨trail, calls⟩ = body room ⟨trail, calls + 1⟩)
    (h : Returns body trail a) : Returns run trail a := by
  obtain ⟨enough, made, hs⟩ := h
  refine ⟨enough + 1, 1 + made, fun room calls => ?_⟩
  cases room with
  | zero => exact without calls
  | succ rest =>
    simp only [Nat.add_le_add_iff_right, ← Nat.add_assoc]
    rw [counts, hs rest (calls + 1)]

private theorem returns_perform
    (h : Returns (fun room => step code (perform code room) q) trail a) :
    Returns (fun room => perform code room q) trail a :=
  returns_counted (fun _ => rfl) (fun _ _ => rfl) h

/-- Every lookup returns the answer under the trail it begins with. -/
theorem perform_returns (code : Codebase) (trail : Trail) (q : Query) :
    Returns (fun room => perform code room q) trail (code.answer trail q) := by
  induction h : (⟨trail, q⟩ : Call) using code.calls_wellFounded.induction generalizing trail q with
  | _ c ih =>
    subst h
    apply returns_perform
    apply step_returns
    intro inner he r hr
    exact ih ⟨inner, r⟩ (Codebase.mem_calls_iff.2 ⟨he, hr⟩) inner r rfl

/-- Questions that one session answers one after the other are answered as if each were alone. -/
theorem performAll_returns (code : Codebase) (trail : Trail) (questions : List Query) :
    Returns (fun room => questions.mapM (perform code room)) trail
      (questions.map (code.answer trail)) :=
  returns_mapM fun q _ => perform_returns code trail q

/-- A session makes the record that the two lookups give when each is alone. -/
theorem record_returns (code : Codebase) (page : PageFile) (m : Module) :
    Returns (fun room => record code room page m) [] (Page.recordOf code page m) := by
  have primary := perform_returns code [] (.exported page.path m Page.primaryExport)
  have fallback := perform_returns code [] (.exported page.path m Page.fallbackExport)
  unfold record Page.recordOf
  cases hp : code.exportValue? [] page.path m Page.primaryExport with
  | some config =>
    rw [Codebase.answer, hp] at primary
    exact primary.bind returns_pure
  | none =>
    rw [Codebase.answer, hp] at primary
    apply primary.bind
    cases hf : code.exportValue? [] page.path m Page.fallbackExport with
    | some metadata =>
      rw [Codebase.answer, hf] at fallback
      exact fallback.bind returns_pure
    | none =>
      rw [Codebase.answer, hf] at fallback
      exact fallback.bind returns_pure

end Perform

end Session

namespace Codebase

/-- The value of an object literal is made of what its members give when each is looked up
alone. -/
theorem valueOf_object (code : Codebase) (trail : Trail) (file : Path) (m : Module)
    (members : List Member) :
    code.valueOf trail file m (.object members) =
      some (.obj (Members.ofList (members.filterMap fun
        | .property (.name key) e => (code.valueOf trail file m e).map (key, ·)
        | _ => none))) := by
  have h := answer_eq code trail (.value file m (.object members))
  rw [enter?_of_visit?_eq_none rfl, Option.bind_some] at h
  refine h.trans ?_
  simp only [plan, valuePlan, Plan.result, List.filterMap_filterMap]
  congr 3
  apply List.filterMap_congr
  intro member hm
  rcases member with ⟨_ | _ | _ | _, e⟩ | _ | _ | _ <;> rfl

/-- Every lookup ends after finitely many calls, with the answer of the lookup functions: no call
leads on without end, whatever the modules of a project ask of each other, and however many
spellings their files have. So there is room enough for every lookup, and with room enough the
number of calls that it makes is fixed. -/
theorem lookup_terminates (code : Codebase) :
    WellFounded (fun d c : Call => d ∈ code.calls c) ∧
      ∀ (trail : Trail) (file : Path) (m : Module),
        (∀ e, ∃ enough made, ∀ room, enough ≤ room → ∀ calls, ∃ rest,
          Session.perform code room (.value file m e) ⟨trail, calls⟩ =
            some (code.valueOf trail file m e, ⟨rest, calls + made⟩)) ∧
        (∀ name, ∃ enough made, ∀ room, enough ≤ room → ∀ calls, ∃ rest,
          Session.perform code room (.binding file m name) ⟨trail, calls⟩ =
            some (code.bindingValue? trail file m name, ⟨rest, calls + made⟩)) ∧
        (∀ name, ∃ enough made, ∀ room, enough ≤ room → ∀ calls, ∃ rest,
          Session.perform code room (.exported file m name) ⟨trail, calls⟩ =
            some (code.exportValue? trail file m name, ⟨rest, calls + made⟩)) := by
  refine ⟨code.calls_wellFounded, fun trail file m => ⟨?_, ?_, ?_⟩⟩
  · intro e
    obtain ⟨enough, made, h⟩ := Session.perform_returns code trail (.value file m e)
    exact ⟨enough, made, fun room hr calls => ⟨trail, (h room calls).trans (if_pos hr)⟩⟩
  · intro name
    obtain ⟨enough, made, h⟩ := Session.perform_returns code trail (.binding file m name)
    exact ⟨enough, made, fun room hr calls => ⟨trail, (h room calls).trans (if_pos hr)⟩⟩
  · intro name
    obtain ⟨enough, made, h⟩ := Session.perform_returns code trail (.exported file m name)
    exact ⟨enough, made, fun room hr calls => ⟨trail, (h room calls).trans (if_pos hr)⟩⟩

/-- Every lookup leaves the trail as it found it, however it ends. So a session answers each of
its questions as if it were the first, makes the record of a page although the configuration was
not found, and no member of an object literal changes what another one gives. -/
theorem lookup_leaves_no_trace (code : Codebase) :
    (∀ (trail : Trail) (file : Path) (m : Module),
      (∀ e, Session.Returns (fun room => Session.perform code room (.value file m e)) trail
        (code.valueOf trail file m e)) ∧
      (∀ name, Session.Returns (fun room => Session.perform code room (.binding file m name))
        trail (code.bindingValue? trail file m name)) ∧
      (∀ request name,
        Session.Returns (fun room => Session.perform code room (.imported file request name))
          trail (code.importedValue? trail file request name)) ∧
      (∀ name, Session.Returns (fun room => Session.perform code room (.exported file m name))
        trail (code.exportValue? trail file m name)) ∧
      (∀ members : List Member, code.valueOf trail file m (.object members) =
        some (.obj (Members.ofList (members.filterMap fun
          | .property (.name key) e => (code.valueOf trail file m e).map (key, ·)
          | _ => none))))) ∧
    (∀ questions : List Query,
      Session.Returns (fun room => questions.mapM (Session.perform code room)) []
        (questions.map (code.answer []))) ∧
    (∀ (page : PageFile) (m : Module),
      Session.Returns (fun room => Session.record code room page m) []
        (Page.recordOf code page m)) := by
  refine ⟨fun trail file m => ⟨?_, ?_, ?_, ?_, ?_⟩, ?_, ?_⟩
  · exact fun e => Session.perform_returns code trail (.value file m e)
  · exact fun name => Session.perform_returns code trail (.binding file m name)
  · exact fun request name => Session.perform_returns code trail (.imported file request name)
  · exact fun name => Session.perform_returns code trail (.exported file m name)
  · exact fun members => code.valueOf_object trail file m members
  · exact fun questions => Session.performAll_returns code [] questions
  · exact fun page m => Session.record_returns code page m

end Codebase

end PageIndex
