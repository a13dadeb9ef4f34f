import PageIndex.Proofs.Lookup.Interface
import PageIndex.Proofs.Script.First
import PageIndex.Proofs.Script.Variables
import PageIndex.Script.Equality

/-!
# What settles a lookup

A module can give away one export more than once, and declare or import one name more than once.
The first one that counts settles the lookup: the lookup goes on with that one alone and has its
value, or none if it has none. The main statements are `lookup_export_first` and
`lookup_binding_first`.
-/

namespace PageIndex

open Script

namespace Codebase

/-- Whether a call goes on with the question `q?` alone, under the trail `inner`, and has its
answer. Without a question it makes no call and has no answer. -/
structure SettledBy (code : Codebase) (c : Call) (inner : Trail) (q? : Option Query) : Prop where
  answer_eq : code.answer c.trail c.query = q?.bind (code.answer inner)
  calls_eq : code.calls c = q?.toList.map (Call.mk inner)

/-- The question about an export that a module gives away by itself. -/
def ownExportQuery? (file : Path) (m : Module) : OwnExport → Option Query
  | .declared d => d.initial.map (.value file m)
  | .listed none n => some (.binding file m n.inner)
  | .listed (some request) n => some (.imported file request n.inner)

/-- Whether a statement exports all of another module again, and that module gives a name the
value. -/
def GivesAgain (code : Codebase) (trail : Trail) (file : Path) (name : String) (s : Statement)
    (v : Json) : Prop :=
  ∃ source, s = .exportAll source false ∧ code.importedValue? trail file source name = some v

section Settled

variable {code : Codebase} {c : Call} {inner trail : Trail} {file : Path} {m : Module}
  {name : String}

/-- A call whose plan is to put at most one question is settled by it. -/
theorem settledBy_first {q? : Option Query} (entered : code.enter? c.trail c.query = some inner)
    (planned : code.plan c.query = .first q?.toList) : code.SettledBy c inner q? where
  answer_eq := by
    rw [answer_eq, entered, Option.bind_some, planned]
    cases q? with
    | none => rfl
    | some q => exact Plan.result_first_singleton q
  calls_eq := by
    simp only [calls, entered, planned]
    cases q? with
    | none => rfl
    | some q => exact congrArg (List.map (Call.mk inner)) (Plan.asked_first_singleton q)

/-- A call that is known to have no answer is settled by nothing. -/
theorem settledBy_none (entered : code.enter? c.trail c.query = some inner)
    (planned : code.plan c.query = .known none) : code.SettledBy c inner none where
  answer_eq := by
    rw [answer_eq, entered, Option.bind_some, planned]
    rfl
  calls_eq := by
    simp only [calls, entered, planned]
    rfl

/-- An export that comes from where one of the module's own exports comes from is settled by that
one. -/
theorem settledBy_ownExport {x : OwnExport} (h : m.exportOrigin? name = some x.origin) :
    code.SettledBy ⟨trail, .exported file m name⟩ trail (ownExportQuery? file m x) := by
  have planned : code.plan (.exported file m name) = originPlan file m x.origin := by
    simp only [plan, h]
  cases x with
  | declared d =>
    cases hd : d.initial with
    | some e =>
      refine settledBy_first rfl (planned.trans ?_)
      simp only [OwnExport.origin, ownExportQuery?, hd]
      rfl
    | none =>
      rw [ownExportQuery?, hd]
      refine settledBy_none rfl (planned.trans ?_)
      simp only [OwnExport.origin, hd]
      rfl
  | listed source n =>
    cases source <;> exact settledBy_first rfl planned

/-- Without a default export, the first of the module's own exports of a name settles it. -/
theorem settledBy_first_ownExport {x : OwnExport}
    (silent : name = "default" → ∀ v, .exportDefault v ∉ m.statements)
    (first : First (fun y => y.name? = some name) m.ownExports x) :
    code.SettledBy ⟨trail, .exported file m name⟩ trail (ownExportQuery? file m x) := by
  refine settledBy_ownExport ?_
  have found : (m.ownExports.find? fun y => y.name? == some name) = some x :=
    (find?_eq_some_iff_first fun _ => beq_iff_eq).2 first
  rw [Module.exportOrigin?_eq_find? silent, found, Option.map_some]

/-- A module that does not declare an export has no origin for it. -/
theorem exportOrigin?_of_undeclared
    (silent : name = "default" → ∀ v, .exportDefault v ∉ m.statements)
    (undeclared : m.declaresExport name = false) : m.exportOrigin? name = none := by
  rw [Module.exportOrigin?_eq_find? silent, Option.map_eq_none_iff, List.find?_eq_none]
  intro x hx named
  have declared : m.declaresExport name = true :=
    Module.declaresExport_iff.2 ⟨x, hx, beq_iff_eq.1 named⟩
  rw [undeclared] at declared
  cases declared

/-- What a module does not declare as an export has the value that the first of the modules gives
it all of whose exports are exported again. -/
theorem exportValue?_of_undeclared (v : Json) (notDefault : name ≠ "default")
    (undeclared : m.declaresExport name = false) :
    code.exportValue? trail file m name = some v ↔
      ∃ s, First (fun t => ∃ w, code.GivesAgain trail file name t w) m.statements s ∧
        code.GivesAgain trail file name s v := by
  have gives (s : Statement) (w : Json) :
      (s.starSource?.bind fun source => code.importedValue? trail file source name) = some w ↔
        code.GivesAgain trail file name s w := by
    simp only [Option.bind_eq_some_iff, Statement.starSource?_eq_some_iff, GivesAgain]
  have unlisted := exportOrigin?_of_undeclared (fun h => absurd h notDefault) undeclared
  rw [exportValue?, unlisted]
  simp only [Module.findSome?_starSources notDefault, findSome?_eq_some_iff_first, gives]

/-- What the module of a text gives away by itself as `default` is an entry in a list. -/
theorem exists_listed_of_parse? {dialect : Dialect} {text : String} {x : OwnExport}
    (parsed : Module.parse? dialect text = some m) (hx : x ∈ m.ownExports)
    (named : x.name? = some "default") : ∃ source n, x = .listed source n := by
  cases x with
  | listed source n => exact ⟨source, n, rfl⟩
  | declared d =>
    obtain ⟨s, hs, hd⟩ := List.mem_flatMap.1 hx
    have declares : d ∈ s.declarators := by
      cases s <;> simp_all [Statement.ownExports, Statement.declarators]
    have unreserved := Module.unreserved_of_parse? parsed s hs d declares "default" named
    exact absurd unreserved (by decide)

end Settled

/-- The first export of a name that a module gives away by itself settles the lookup of that
export, whether it has a value or not. What a module does not declare has the value that the first
module gives it all of whose exports are exported again. The first default export settles the
lookup of the default export, else the first entry of that name in a list does, and no other module
is searched for it. -/
theorem lookup_export_first (code : Codebase) (trail : Trail) (file : Path) (m : Module) :
    (∀ name, name ≠ "default" →
      (m.declaresExport name = true →
        ∃ x, First (fun y => y.name? = some name) m.ownExports x ∧
          code.SettledBy ⟨trail, .exported file m name⟩ trail (ownExportQuery? file m x)) ∧
      (m.declaresExport name = false → ∀ v,
        (code.exportValue? trail file m name = some v ↔
          ∃ s, First (fun t => ∃ w, code.GivesAgain trail file name t w) m.statements s ∧
            code.GivesAgain trail file name s v))) ∧
    (∀ value, First (fun s => ∃ v, s = .exportDefault v) m.statements (.exportDefault value) →
      code.SettledBy ⟨trail, .exported file m "default"⟩ trail (value.map (.value file m))) ∧
    ((∀ v, .exportDefault v ∉ m.statements) →
      (∀ x, First (fun y => y.name? = some "default") m.ownExports x →
        code.SettledBy ⟨trail, .exported file m "default"⟩ trail (ownExportQuery? file m x)) ∧
      (m.declaresExport "default" = false →
        code.SettledBy ⟨trail, .exported file m "default"⟩ trail none)) ∧
    (∀ dialect text, Module.parse? dialect text = some m →
      ∀ x ∈ m.ownExports, x.name? = some "default" → ∃ source n, x = .listed source n) := by
  refine ⟨?_, ?_, ?_, ?_⟩
  · intro name notDefault
    constructor
    · intro declared
      obtain ⟨y, hy, named⟩ := Module.declaresExport_iff.1 declared
      obtain ⟨x, first⟩ := exists_first (p := fun y => y.name? = some name) hy named
      exact ⟨x, first, settledBy_first_ownExport (fun h => absurd h notDefault) first⟩
    · intro undeclared v
      exact exportValue?_of_undeclared v notDefault undeclared
  · intro value first
    -- A default export comes from where an exported variable of the same value would come from.
    have origin := Module.exportOrigin?_default_of_first first
    exact settledBy_ownExport (x := .declared ⟨none, value⟩) origin
  · intro silent
    constructor
    · intro x first
      exact settledBy_first_ownExport (fun _ => silent) first
    · intro undeclared
      refine settledBy_first rfl ?_
      simp only [plan, exportOrigin?_of_undeclared (fun _ => silent) undeclared]
      rfl
  · intro dialect text parsed x hx named
    exact exists_listed_of_parse? parsed hx named

/-- A text that exports a variable without a value, a function as the default export, and the
variable as `default` once more. -/
def valuelessText : String :=
  "export let seo; export default function page() {} export { seo as default }; " ++
    "export * from './more'"

/-- The module of `valuelessText`. -/
def valuelessModule : Module :=
  ⟨[.exportVariables [⟨some "seo", none⟩], .exportDefault none,
    .exportNames none [⟨"seo", "default"⟩], .exportAll "./more" false]⟩

/-- Neither of its exports has a value, and nothing else is searched for one. -/
theorem lookup_export_first_valueless :
    Module.parse? ⟨true, false⟩ valuelessText = some valuelessModule ∧
      valuelessModule.declaresExport "seo" = true ∧
      empty.SettledBy ⟨[], .exported ⟨"page.ts"⟩ valuelessModule "seo"⟩ [] none ∧
      empty.SettledBy ⟨[], .exported ⟨"page.ts"⟩ valuelessModule "default"⟩ [] none := by
  have declared : valuelessModule.declaresExport "seo" = true := by decide
  obtain ⟨own, default, -, -⟩ := lookup_export_first empty [] ⟨"page.ts"⟩ valuelessModule
  refine ⟨by decide +kernel, declared, ?_, ?_⟩
  · obtain ⟨x, first, settled⟩ := (own "seo" (by decide)).1 declared
    have found : valuelessModule.ownExports.find? (fun y => y.name? == some "seo") =
        some (.declared ⟨some "seo", none⟩) := rfl
    rw [(find?_eq_some_iff_first fun _ => beq_iff_eq).2 first] at found
    cases found
    exact settled
  · refine default none ⟨[_], [_, _], rfl, ⟨none, rfl⟩, fun s hs => ?_⟩
    rw [List.mem_singleton.1 hs]
    rintro ⟨v, ⟨⟩⟩

section Names

variable {code : Codebase} {trail : Trail} {file : Path} {m m' : Module} {name : String}

/-- A name with an initial value is settled by that value alone. -/
theorem settledBy_initial {e : Expr} (admitted : trail.admits ⟨file, .binding name⟩ = true)
    (h : m.initial? name = some e) :
    code.SettledBy ⟨trail, .binding file m name⟩ (⟨file, .binding name⟩ :: trail)
      (some (.value file m e)) := by
  refine settledBy_first (if_pos admitted) ?_
  simp only [plan, h]
  rfl

/-- An imported name without an initial value is settled by its import alone. -/
theorem settledBy_import {source exported : String}
    (admitted : trail.admits ⟨file, .binding name⟩ = true) (h : m.initial? name = none)
    (ho : m.importOrigin? name = some (.imported source exported)) :
    code.SettledBy ⟨trail, .binding file m name⟩ (⟨file, .binding name⟩ :: trail)
      (some (.imported file source exported)) := by
  refine settledBy_first (if_pos admitted) ?_
  simp only [plan, h, ho]
  rfl

/-- A name that has no initial value and is not imported is settled by nothing. -/
theorem settledBy_unbound (admitted : trail.admits ⟨file, .binding name⟩ = true)
    (h : m.initial? name = none) (ho : m.importOrigin? name = none) :
    code.SettledBy ⟨trail, .binding file m name⟩ (⟨file, .binding name⟩ :: trail) none := by
  refine settledBy_none (if_pos admitted) ?_
  simp only [plan, h, ho]

/-- A name to which no statement gives an initial value has none. -/
theorem initial?_eq_none (h : ∀ s ∈ m.statements, ∀ e, ¬ s.Initializes name e) :
    m.initial? name = none := by
  rw [Option.eq_none_iff_forall_ne_some]
  intro e found
  obtain ⟨s, first, gives⟩ := Module.initial?_eq_some_iff.1 found
  exact h s first.mem_and_holds.1 e gives

/-- A name that no import binds comes from no import. -/
theorem importOrigin?_eq_none (h : ∀ p ∈ m.importedNames, ∀ exported, ¬ p.2.Binds name exported) :
    m.importOrigin? name = none := by
  rw [Option.eq_none_iff_forall_ne_some]
  intro origin found
  obtain ⟨source, exported, rfl⟩ := Module.importOrigin?_eq_imported found
  obtain ⟨n, first, binds⟩ := Module.importOrigin?_eq_some_iff.1 found
  exact h (source, n) first.mem_and_holds.1 exported binds

/-- The value of a name comes from an initialised variable or from an import of a single export. -/
theorem exists_of_bindingValue? {v : Json} (found : code.bindingValue? trail file m name = some v) :
    (∃ s ∈ m.statements, ∃ d ∈ s.declarators, ∃ e, d.name = some name ∧ d.initial = some e ∧
        code.valueOf (⟨file, .binding name⟩ :: trail) file m e = some v) ∨
      ∃ source n exported, (source, n) ∈ m.importedNames ∧ n.Binds name exported ∧
        code.importedValue? (⟨file, .binding name⟩ :: trail) file source exported = some v := by
  by_cases admitted : trail.admits ⟨file, .binding name⟩ = true
  · rw [bindingValue?, dif_pos admitted] at found
    dsimp only at found
    split at found
    · next e he =>
      left
      obtain ⟨s, first, d, named, initial⟩ := Module.initial?_eq_some_iff.1 he
      obtain ⟨hd, same⟩ := named.mem_and_holds
      exact ⟨s, first.mem_and_holds.1, d, hd, e, same, initial, found⟩
    · split at found
      · next source exported ho =>
        right
        obtain ⟨n, first, binds⟩ := Module.importOrigin?_eq_some_iff.1 ho
        exact ⟨source, n, exported, first.mem_and_holds.1, binds, found⟩
      · cases found
  · rw [bindingValue?, dif_neg admitted] at found
    cases found

/-- Whether a question is about an expression or a name of the module `m` in `file`. -/
inductive Within (file : Path) (m : Module) : Query → Prop where
  | value (e : Expr) : Within file m (.value file m e)
  | binding (name : String) : Within file m (.binding file m name)

private theorem plan_inModule {q : Query} (hq : Within file m q)
    (hi : ∀ name, m'.initial? name = m.initial? name)
    (ho : ∀ name, m'.importOrigin? name = m.importOrigin? name) :
    code.plan (q.inModule m') = (code.plan q).map (Query.inModule m') := by
  cases hq with
  | value e => exact valuePlan_map (fun _ => rfl) (fun _ => rfl) e
  | binding name =>
    simp only [Query.inModule, plan, hi, ho]
    cases m.initial? name with
    | some e => rfl
    | none =>
      cases m.importOrigin? name with
      | none => rfl
      | some origin => cases origin <;> rfl

/-- What expressions and names have for values depends on their module only through where the names
of the module come from. -/
theorem answer_inModule {q : Query} (hq : Within file m q)
    (hi : ∀ name, m'.initial? name = m.initial? name)
    (ho : ∀ name, m'.importOrigin? name = m.importOrigin? name) :
    code.answer trail (q.inModule m') = code.answer trail q := by
  refine answer_of_plan_map ?_ (fun q hq => plan_inModule hq hi ho) ?_ trail hq
  · intro q hq
    cases hq <;> rfl
  · intro q ask hq r hr
    cases hq with
    | value e =>
      rcases mem_asked_value hr with ⟨part, rfl, -⟩ | ⟨name, rfl, -⟩
      · exact .inl (.value part)
      · exact .inl (.binding name)
    | binding name =>
      rcases mem_asked_binding hr with ⟨e, -, rfl⟩ | ⟨source, exported, -, rfl⟩
      · exact .inl (.value e)
      · -- An import is put to no module.
        exact .inr fun _ => rfl

end Names

/-- The first statement that gives a name an initial value settles the lookup of the name, whether
that has a value or not. Without one the first import of the name does, whether it has a value or
not, and without one of those nothing does. So the value of a name comes from an initialised
variable or from an import of a single export, and what else is in the module does not matter. -/
theorem lookup_binding_first (code : Codebase) (trail : Trail) (file : Path) (m : Module)
    (name : String) (admitted : trail.admits ⟨file, .binding name⟩ = true) :
    (∀ s e, First (fun t => ∃ e', t.Initializes name e') m.statements s → s.Initializes name e →
      code.SettledBy ⟨trail, .binding file m name⟩ (⟨file, .binding name⟩ :: trail)
        (some (.value file m e))) ∧
    ((∀ s ∈ m.statements, ∀ e, ¬ s.Initializes name e) →
      (∀ source n exported,
        First (fun p => ∃ other, p.2.Binds name other) m.importedNames (source, n) →
        n.Binds name exported →
        code.SettledBy ⟨trail, .binding file m name⟩ (⟨file, .binding name⟩ :: trail)
          (some (.imported file source exported))) ∧
      ((∀ p ∈ m.importedNames, ∀ exported, ¬ p.2.Binds name exported) →
        code.SettledBy ⟨trail, .binding file m name⟩ (⟨file, .binding name⟩ :: trail) none)) ∧
    (∀ v, code.bindingValue? trail file m name = some v →
      (∃ s ∈ m.statements, ∃ d ∈ s.declarators, ∃ e, d.name = some name ∧ d.initial = some e ∧
          code.valueOf (⟨file, .binding name⟩ :: trail) file m e = some v) ∨
        ∃ source n exported, (source, n) ∈ m.importedNames ∧ n.Binds name exported ∧
          code.importedValue? (⟨file, .binding name⟩ :: trail) file source exported = some v) ∧
    code.bindingValue? trail file m.supplying name = code.bindingValue? trail file m name := by
  refine ⟨?_, ?_, fun v => exists_of_bindingValue?, ?_⟩
  · intro s e first gives
    exact settledBy_initial admitted (Module.initial?_eq_some_iff.2 ⟨s, first, gives⟩)
  · intro silent
    have uninitialized := initial?_eq_none silent
    constructor
    · intro source n exported first binds
      have origin := Module.importOrigin?_eq_some_iff.2 ⟨n, first, binds⟩
      exact settledBy_import admitted uninitialized origin
    · intro unbound
      exact settledBy_unbound admitted uninitialized (importOrigin?_eq_none unbound)
  · exact answer_inModule (Within.binding name) m.initial?_supplying m.importOrigin?_supplying

/-- A text that declares and imports names again and again. -/
def redeclaredText : String :=
  "let a; var { a } = 0; function a() { var a = 1 } { var a = 2 } var a, a = 3; " ++
    "export const a = 'first', a = 'second'; import * as b from './whole'; " ++
    "import { a } from './named'; import b, { c as b } from './b'"

/-- The module of `redeclaredText`. -/
def redeclaredModule : Module :=
  ⟨[.declareVariables [⟨some "a", none⟩], .declareVariables [⟨none, some (.num (.ofNat 0))⟩],
    .other, .other, .declareVariables [⟨some "a", none⟩, ⟨some "a", some (.num (.ofNat 3))⟩],
    .exportVariables [⟨some "a", some (.str "first")⟩, ⟨some "a", some (.str "second")⟩],
    .importFrom "./whole" [.whole "b"], .importFrom "./named" [.named "a" "a"],
    .importFrom "./b" [.default "b", .named "c" "b"]]⟩

/-- One name of that module has the first initial value that a statement gives it, and another one,
which has none, is looked for where its first import says. -/
theorem lookup_binding_first_redeclared :
    Module.parse? ⟨true, false⟩ redeclaredText = some redeclaredModule ∧
      Trail.admits [] ⟨⟨"page.ts"⟩, .binding "a"⟩ = true ∧
      empty.bindingValue? [] ⟨"page.ts"⟩ redeclaredModule "a" = some (.str "first") ∧
      Trail.admits [] ⟨⟨"page.ts"⟩, .binding "b"⟩ = true ∧
      empty.SettledBy ⟨[], .binding ⟨"page.ts"⟩ redeclaredModule "b"⟩
        [⟨⟨"page.ts"⟩, .binding "b"⟩] (some (.imported ⟨"page.ts"⟩ "./b" "default")) := by
  refine ⟨by decide +kernel, by decide, ?_, by decide, ?_⟩
  · have initial : redeclaredModule.initial? "a" = some (.str "first") := rfl
    obtain ⟨s, first, gives⟩ := Module.initial?_eq_some_iff.1 initial
    have settled := (lookup_binding_first empty [] ⟨"page.ts"⟩ redeclaredModule "a"
      (by decide)).1 s (.str "first") first gives
    refine settled.answer_eq.trans ?_
    rw [Option.bind_some, answer, valueOf]
  · have silent : redeclaredModule.initial? "b" = none := rfl
    rw [Module.initial?, List.findSome?_eq_none_iff] at silent
    have origin : redeclaredModule.importOrigin? "b" = some (.imported "./b" "default") := rfl
    obtain ⟨n, first, binds⟩ := Module.importOrigin?_eq_some_iff.1 origin
    refine ((lookup_binding_first empty [] ⟨"page.ts"⟩ redeclaredModule "b" (by decide)).2.1
      fun s hs e gives => ?_).1 "./b" n "default" first binds
    have given := Statement.initial?_eq_some_iff.2 gives
    rw [silent s hs] at given
    cases given

end Codebase

end PageIndex
