import PageIndex.Proofs.FileTree.Texts
import PageIndex.Proofs.Lookup.Guard

/-!
# Chains of modules

An export may be handed on from module to module. Each module has a link to the one before it: it
imports the export and gives it away again, with any number of names for it in between, or exports
it from there, by its name or with all exports. The main statement is `lookup_along_chain`. A lookup
finds the value at the end of a chain exactly when the chain has no more links than files may be
entered. Neither the kinds of the links nor the names in between make a difference.

A chain is followed question by question, with one question leading to the next (`Thread`). Such a
thread has a plain answer with as many nested imports as it has links, and no answer under a trail
on which not so many files may be entered any more.
-/

namespace PageIndex

open Script

namespace Script.Module

/-- A name of the module has the given origin, by way of any number of variables each of which has
another name as its initial value. -/
inductive Names (m : Module) : String → Origin → Prop where
  /-- A variable has an expression without names as its initial value. -/
  | valued {a : String} {e : Expr} (initial : m.initial? a = some e) (closed : e.references = []) :
    Names m a (.expression e)
  /-- A name that is not declared is imported. -/
  | imported {a request x : String} (undeclared : m.initial? a = none)
    (bound : m.importOrigin? a = some (.imported request x)) : Names m a (.imported request x)
  /-- A variable has another name as its initial value. -/
  | renamed {a b : String} {origin : Origin} (initial : m.initial? a = some (.reference b))
    (next : Names m b origin) : Names m a origin

/-- An export of the module has the given origin, an expression without names or an export of
another module. -/
inductive Gives (m : Module) (y : String) : Origin → Prop where
  /-- The export is an expression without names. -/
  | value {e : Expr} (own : m.exportOrigin? y = some (.expression e)) (closed : e.references = []) :
    Gives m y (.expression e)
  /-- The export is exported from another module. -/
  | handed {request x : String} (own : m.exportOrigin? y = some (.imported request x)) :
    Gives m y (.imported request x)
  /-- A name of the module is exported. -/
  | name {a : String} {origin : Origin} (own : m.exportOrigin? y = some (.binding a))
    (names : m.Names a origin) : Gives m y origin
  /-- A variable with a name as its initial value is exported, or a name as the default export. -/
  | reference {a : String} {origin : Origin}
    (own : m.exportOrigin? y = some (.expression (.reference a))) (names : m.Names a origin) :
    Gives m y origin

end Script.Module

namespace Codebase

/-- A chain of `n` links leads from the export `y` of the module `m` in `file` to an expression
without names whose value is `v`. -/
inductive Chain (code : Codebase) (v : Json) : Nat → Path → Module → String → Prop where
  /-- The export is written down in the module. -/
  | written {file : Path} {m : Module} {y : String} {e : Expr} (gives : m.Gives y (.expression e))
    (value : code.valueOf [] file m e = some v) : Chain code v 0 file m y
  /-- The export is one of another module. -/
  | link {n : Nat} {file target : Path} {m m' : Module} {y request x : String}
    (gives : m.Gives y (.imported request x)) (leads : code.target? file request = some target)
    (read : code.module? target = some m') (rest : Chain code v n target m' x) :
    Chain code v (n + 1) file m y
  /-- The export is among all exports of another module, the only one that is treated so. -/
  | star {n : Nat} {file target : Path} {m m' : Module} {y request : String}
    (own : m.exportOrigin? y = none) (only : m.starSources y = [request])
    (leads : code.target? file request = some target) (read : code.module? target = some m')
    (rest : Chain code v n target m' y) : Chain code v (n + 1) file m y

/-- Each question leads to one other question, through `n` imports, until it is about an expression
without names whose value is `v`. -/
inductive Thread (code : Codebase) (v : Json) : Nat → Query → Prop where
  | closed {file : Path} {m : Module} {e : Expr} (closed : e.references = [])
    (value : code.valueOf [] file m e = some v) : Thread code v 0 (.value file m e)
  | next {n : Nat} {q r : Query} (plan : code.plan q = .first [r]) (rest : Thread code v n r) :
    Thread code v (n + q.hops) q

variable {code : Codebase} {v : Json} {n : Nat} {q : Query} {file : Path} {m : Module}
  {origin : Origin} {r : Query}

/-- An expression without names has its value plainly. -/
theorem plain_of_closed {e : Expr} (closed : e.references = []) :
    code.Plain (sizeOf e + 1) 0 (.value file m e) (code.valueOf [] file m e) := by
  induction size : sizeOf e using Nat.strong_induction_on generalizing e with
  | _ s ih =>
    subst size
    have value : code.valueOf [] file m e =
        (code.plan (.value file m e)).result (code.answer []) :=
      answer_eq code [] (.value file m e)
    rw [value]
    -- Without names it asks only for its parts, which are smaller and have no names either.
    refine Plain.intro (q := .value file m e) fun r asked => ?_
    obtain ⟨part, rfl, ofPart⟩ | ⟨name, -, rfl⟩ := mem_asked_value asked
    · have smaller := ofPart.sizeOf_lt
      have closed' : part.references = [] :=
        List.eq_nil_of_subset_nil (closed ▸ ofPart.references_subset)
      exact (ih (sizeOf part) smaller closed' rfl).mono smaller (Nat.le_refl 0)
    · cases closed

private theorem hops_eq_zero (looks : code.visit? q = none) (plan : code.plan q = .first [r]) :
    q.hops = 0 := by
  cases q with
  | imported file request x =>
    have unresolved : code.target? file request = none := Option.map_eq_none_iff.1 looks
    simp only [Codebase.plan, unresolved] at plan
    cases plan
  | value file m e => rfl
  | binding file m name => rfl
  | exported file m name => rfl

private theorem hops_enter? {trail inner : Trail} (room : trail.hops ≤ Trail.hopLimit)
    (plan : code.plan q = .first [r]) (entered : code.enter? trail q = some inner) :
    inner.hops = trail.hops + q.hops ∧ inner.hops ≤ Trail.hopLimit := by
  obtain ⟨looks, rfl⟩ | ⟨v, looks, admitted, rfl⟩ := enter?_eq_some_iff.1 entered
  · rw [hops_eq_zero looks plan]
    exact ⟨rfl, room⟩
  · refine ⟨hops_cons_of_visit? looks, ?_⟩
    rw [Trail.hops_cons]
    split
    next exported => exact (Trail.admits_iff.1 admitted).1 exported
    next => exact room

/-- A thread has a plain answer, with as many nested imports as it leads through. -/
theorem Thread.plain (h : code.Thread v n q) : ∃ height, code.Plain height n q (some v) := by
  induction h with
  | closed closed value => exact ⟨_, value ▸ plain_of_closed closed⟩
  | next plan rest ih =>
    obtain ⟨height, inner⟩ := ih
    exact ⟨height + 1, .first plan inner⟩

/-- A thread through more imports than files may be entered has no answer. -/
theorem Thread.answer_eq_none (h : code.Thread v n q) {trail : Trail}
    (room : trail.hops ≤ Trail.hopLimit) (full : Trail.hopLimit < trail.hops + n) :
    code.answer trail q = none := by
  induction h generalizing trail with
  | closed closed value => omega
  | @next n q r plan rest ih =>
    cases entered : code.enter? trail q with
    | none => exact answer_of_refused entered
    | some inner =>
      -- An import that is taken up leaves one import less on the thread and one more on the trail.
      obtain ⟨hops, room'⟩ := hops_enter? room plan entered
      rw [answer_of_first entered plan]
      exact ih room' (by omega)

/-- A question that enters no file leads through the imports of the question that it leads to. -/
theorem Thread.here (plan : code.plan q = .first [r]) (hq : q.hops = 0)
    (rest : code.Thread v n r) : code.Thread v n q := by
  have whole : code.Thread v (n + q.hops) q := .next plan rest
  rwa [hq] at whole

/-- A name leads to its origin, through no import. -/
theorem Thread.of_names {a : String} (names : m.Names a origin)
    (plan : originPlan file m origin = .first [r]) (rest : code.Thread v n r) :
    code.Thread v n (.binding file m a) := by
  induction names with
  | valued initial closed =>
    refine .here ?_ rfl rest
    simp only [Codebase.plan, initial]
    exact plan
  | imported undeclared bound =>
    refine .here ?_ rfl rest
    simp only [Codebase.plan, undeclared, bound]
    exact plan
  | @renamed a b origin initial next ih =>
    have step : code.Thread v n (.value file m (.reference b)) := .here rfl rfl (ih plan)
    refine .here ?_ rfl step
    simp only [Codebase.plan, initial]

/-- An export leads to its origin, through no import. -/
theorem Thread.of_gives {y : String} (gives : m.Gives y origin)
    (plan : originPlan file m origin = .first [r]) (rest : code.Thread v n r) :
    code.Thread v n (.exported file m y) := by
  cases gives with
  | value own closed =>
    refine .here ?_ rfl rest
    simp only [Codebase.plan, own]
    exact plan
  | handed own =>
    refine .here ?_ rfl rest
    simp only [Codebase.plan, own]
    exact plan
  | @name a _ own names =>
    refine .here ?_ rfl (.of_names names plan rest)
    simp only [Codebase.plan, own, originPlan]
  | @reference a _ own names =>
    have step : code.Thread v n (.value file m (.reference a)) :=
      .here rfl rfl (.of_names names plan rest)
    refine .here ?_ rfl step
    simp only [Codebase.plan, own, originPlan]

/-- An import of an export of a module leads there, through one import more. -/
theorem Thread.of_imported {target : Path} {m' : Module} {request x : String}
    (leads : code.target? file request = some target) (read : code.module? target = some m')
    (rest : code.Thread v n (.exported target m' x)) :
    code.Thread v (n + 1) (.imported file request x) := by
  have plan : code.plan (.imported file request x) = .first [.exported target m' x] := by
    simp only [Codebase.plan, leads, read]
  exact .next plan rest

end Codebase

namespace Script.Module

variable {m : Module} {a y : String} {e : Expr}

/-- The expression that a name comes from has no names in it. -/
theorem Names.closed (names : m.Names a (.expression e)) : e.references = [] := by
  generalize given : Origin.expression e = origin at names
  induction names with
  | valued initial closed =>
    cases given
    exact closed
  | imported undeclared bound => cases given
  | renamed initial next ih => exact ih given

/-- The expression that an export comes from has no names in it. -/
theorem Gives.closed (gives : m.Gives y (.expression e)) : e.references = [] := by
  cases gives with
  | value own closed => exact closed
  | name own names => exact names.closed
  | reference own names => exact names.closed

end Script.Module

namespace Codebase

variable {code : Codebase} {v : Json} {n : Nat} {file : Path} {m : Module}

/-- A chain is a thread through as many imports as it has links. -/
theorem Chain.thread {y : String} (h : code.Chain v n file m y) :
    code.Thread v n (.exported file m y) := by
  induction h with
  | written gives value => exact .of_gives gives rfl (.closed gives.closed value)
  | link gives leads read rest ih => exact .of_gives gives rfl (.of_imported leads read ih)
  | star own only leads read rest ih =>
    refine .here ?_ rfl (.of_imported leads read ih)
    simp only [Codebase.plan, own, only, List.map_cons, List.map_nil]

/-- The number of links is all that matters to the lookup of an export along a chain. It finds the
value that is written down at the end if there are no more than 32 links, and nothing otherwise,
whatever kinds of links there are, in whatever order, and whatever names are in between. -/
theorem lookup_along_chain (aliases : AliasTable) (tree : FileTree) {file : Path} {m : Module}
    (hm : tree.readModule file = .ok m) {v : Json} {n : Nat} {y : String}
    (chain : (ofTree aliases tree).Chain v n file m y) :
    (ofTree aliases tree).exportValue? [] file m y = if n ≤ 32 then some v else none := by
  have thread := chain.thread
  have known : (ofTree aliases tree).module? file = some m := module?_ofTree.2 hm
  split
  next short =>
    obtain ⟨height, plain⟩ := thread.plain
    have room : Trail.hops [] + n ≤ Trail.hopLimit := by
      simpa [Trail.hops, Trail.hopLimit] using short
    exact (plain.answer_eq (coherent_ofTree aliases tree) known room fresh_nil).1
  next long =>
    have full : Trail.hopLimit < Trail.hops [] + n := by
      simpa [Trail.hops, Trail.hopLimit] using long
    exact thread.answer_eq_none (Nat.zero_le _) full

/-- The texts of modules that hand a value on from one to the next, each by a link of another
kind. -/
def handedTexts : List (String × String) :=
  [("a.ts", "export const a = 'T'"),
    ("b.ts", "import { a as b } from './a'; const c = b, d = c; export default d"),
    ("e.ts", "export { default as e } from './b'"), ("f.ts", "export * from './e'"),
    ("g.ts", "import { e as g } from './f'; export { g as h }")]

private def textModule : Module :=
  ⟨[.exportVariables [⟨some "a", some (.str "T")⟩]]⟩

private def renamingModule : Module :=
  ⟨[.importFrom "./a" [.named "a" "b"],
    .declareVariables [⟨some "c", some (.reference "b")⟩, ⟨some "d", some (.reference "c")⟩],
    .exportDefault (some (.reference "d"))]⟩

private def listingModule : Module :=
  ⟨[.exportNames (some "./b") [⟨"default", "e"⟩]]⟩

private def starModule : Module :=
  ⟨[.exportAll "./e" false]⟩

/-- The last of the modules that hand a value on. -/
def lastModule : Module :=
  ⟨[.importFrom "./f" [.named "e" "g"], .exportNames none [⟨"g", "h"⟩]]⟩

private theorem readModule_handedTexts :
    (FileTree.ofTexts handedTexts).readModule ⟨"/a.ts"⟩ = .ok textModule ∧
    (FileTree.ofTexts handedTexts).readModule ⟨"/b.ts"⟩ = .ok renamingModule ∧
    (FileTree.ofTexts handedTexts).readModule ⟨"/e.ts"⟩ = .ok listingModule ∧
    (FileTree.ofTexts handedTexts).readModule ⟨"/f.ts"⟩ = .ok starModule ∧
    (FileTree.ofTexts handedTexts).readModule ⟨"/g.ts"⟩ = .ok lastModule := by
  have entries : FileTree.IsTopEntry ⟨"/a.ts"⟩ "a.ts" ∧ FileTree.IsTopEntry ⟨"/b.ts"⟩ "b.ts" ∧
      FileTree.IsTopEntry ⟨"/e.ts"⟩ "e.ts" ∧ FileTree.IsTopEntry ⟨"/f.ts"⟩ "f.ts" ∧
      FileTree.IsTopEntry ⟨"/g.ts"⟩ "g.ts" := by
    decide
  obtain ⟨a, b, e, f, g⟩ := entries
  exact ⟨FileTree.readModule_ofTexts a rfl (by decide +kernel),
    FileTree.readModule_ofTexts b rfl (by decide +kernel),
    FileTree.readModule_ofTexts e rfl (by decide +kernel),
    FileTree.readModule_ofTexts f rfl (by decide +kernel),
    FileTree.readModule_ofTexts g rfl (by decide +kernel)⟩

private theorem target?_handedTexts :
    (ofTree .empty (.ofTexts handedTexts)).target? ⟨"/b.ts"⟩ "./a" = some ⟨"/a.ts"⟩ ∧
    (ofTree .empty (.ofTexts handedTexts)).target? ⟨"/e.ts"⟩ "./b" = some ⟨"/b.ts"⟩ ∧
    (ofTree .empty (.ofTexts handedTexts)).target? ⟨"/f.ts"⟩ "./e" = some ⟨"/e.ts"⟩ ∧
    (ofTree .empty (.ofTexts handedTexts)).target? ⟨"/g.ts"⟩ "./f" = some ⟨"/f.ts"⟩ := by
  exact ⟨target?_ofTexts "a" rfl (by decide),
    target?_ofTexts "b" rfl (by decide),
    target?_ofTexts "e" rfl (by decide),
    target?_ofTexts "f" rfl (by decide)⟩

/-- A value that is handed on by four modules, each by a link of another kind, is found. -/
theorem lookup_along_chain_handed :
    let code := ofTree .empty (.ofTexts handedTexts)
    (FileTree.ofTexts handedTexts).readModule ⟨"/g.ts"⟩ = .ok lastModule ∧
      code.Chain (.str "T") 4 ⟨"/g.ts"⟩ lastModule "h" ∧
      code.exportValue? [] ⟨"/g.ts"⟩ lastModule "h" = some (.str "T") := by
  intro code
  obtain ⟨a, b, e, f, g⟩ := readModule_handedTexts
  obtain ⟨b_a, e_b, f_e, g_f⟩ := target?_handedTexts
  have written : code.Chain (.str "T") 0 ⟨"/a.ts"⟩ textModule "a" :=
    .written (.value rfl rfl) (by simp only [valueOf])
  have renamed : code.Chain (.str "T") 1 ⟨"/b.ts"⟩ renamingModule "default" :=
    .link (.reference rfl (.renamed rfl (.renamed rfl (.imported rfl rfl)))) b_a
      (module?_ofTree.2 a) written
  have listed : code.Chain (.str "T") 2 ⟨"/e.ts"⟩ listingModule "e" :=
    .link (.handed rfl) e_b (module?_ofTree.2 b) renamed
  have starred : code.Chain (.str "T") 3 ⟨"/f.ts"⟩ starModule "e" :=
    .star rfl rfl f_e (module?_ofTree.2 e) listed
  have named : code.Chain (.str "T") 4 ⟨"/g.ts"⟩ lastModule "h" :=
    .link (.name rfl (.imported rfl rfl)) g_f (module?_ofTree.2 f) starred
  exact ⟨g, named, lookup_along_chain .empty _ g named⟩

end Codebase

end PageIndex
