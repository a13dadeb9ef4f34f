import Mathlib.Data.Set.Insert
import PageIndex.Proofs.FileTree.Contents
import PageIndex.Proofs.Lookup.Guard
import PageIndex.Proofs.Lookup.Interface
import PageIndex.Proofs.Script.Shape

/-!
# Lookups and the shapes of exports

An export that is written in two statements takes one more step to its value, and so does every
lookup that comes by. In both shapes a question has the same plain answers, with as many imports
nested in one another. The main statement is `lookup_reshaped`: a lookup that has a plain answer in
one shape finds it in both.
-/

namespace PageIndex

open Script

namespace Query

/-- Whether a question speaks of other names of its module than a fresh one. -/
def Avoids (fresh : Option String) : Query → Prop
  | .value _ _ e => ∀ name ∈ e.references, fresh ≠ some name
  | .binding _ _ name => fresh ≠ some name
  | .imported .. => True
  | .exported .. => True

end Query

namespace Codebase

/-- Whether two codebases say the same, when each module is the same or restated. Requests lead to
the same files. -/
structure Restated (fresh : Option String) (code code' : Codebase) : Prop where
  target?_eq (p : Path) (request : String) : code'.target? p request = code.target? p request
  module?_cases (p : Path) : code'.module? p = code.module? p ∨
    ∃ m m', code.module? p = some m ∧ code'.module? p = some m' ∧ m.Restated fresh m'

/-- Whether a question is put to the module in its file, and speaks of no fresh name of it. -/
structure Kept (fresh : Option String) (code code' : Codebase) (q : Query) : Prop where
  posed : code.Posed q
  avoids : code'.module? q.file = code.module? q.file ∨ q.Avoids fresh

/-- A name asks what its origin asks. -/
theorem plan_binding_of_bindingOrigin? {code : Codebase} {p : Path} {m : Module} {name : String}
    {origin : Origin} (h : m.bindingOrigin? name = some origin) :
    code.plan (.binding p m name) = originPlan p m origin := by
  unfold Module.bindingOrigin? at h
  simp only [plan]
  cases hi : m.initial? name with
  | some e =>
    rw [hi] at h
    cases h
    rfl
  | none =>
    rw [hi] at h
    obtain ⟨request, exported, rfl⟩ := Module.importOrigin?_eq_imported h
    simp only [h]
    rfl

namespace Restated

variable {fresh : Option String} {code code' : Codebase} {p : Path} {q r : Query} {m : Module}
  {height hops : Nat} {a : Option Json}

/-- What a file holds is the same or restated. -/
theorem module?_of_module? (h : code.Restated fresh code') (hm : code.module? p = some m) :
    ∃ m', code'.module? p = some m' ∧ (m' = m ∨ m.Restated fresh m') := by
  rcases h.module?_cases p with same | ⟨n, m', hn, hm', restated⟩
  · exact ⟨m, same.trans hm, .inl rfl⟩
  · rw [hm] at hn
    cases hn
    exact ⟨m', hm', .inr restated⟩

/-- The questions that a question leads to speak of no fresh name, either. -/
theorem kept_of_asked (h : code.Restated fresh code') (hq : code.Kept fresh code' q)
    {ask : Query → Option Json} (hr : r ∈ (code.plan q).asked ask) :
    code.Kept fresh code' r := by
  obtain ⟨posed, avoids⟩ := hq
  refine ⟨(posed.of_asked hr).1, ?_⟩
  have unreferenced {p : Path} {m : Module} (hm : code.module? p = some m) :
      code'.module? p = code.module? p ∨ ∀ name ∈ m.references, fresh ≠ some name := by
    obtain ⟨m', hm', rfl | restated⟩ := h.module?_of_module? hm
    · exact .inl (hm'.trans hm.symm)
    · exact .inr fun name hn hf => restated.unreferenced hf hn
  cases q with
  | value p m e =>
    rcases mem_asked_value hr with ⟨part, rfl, hp⟩ | ⟨name, rfl, rfl⟩
    · exact avoids.imp id fun apart name hn => apart name (hp.references_subset hn)
    · exact avoids.imp id fun apart => apart name List.mem_cons_self
  | binding p m name =>
    rcases mem_asked_binding hr with ⟨e, hi, rfl⟩ | ⟨request, exported, -, rfl⟩
    · exact (unreferenced posed).imp id fun apart n hn =>
        apart n (Module.references_subset_of_initial? hi hn)
    · exact .inr trivial
  | imported p request name =>
    obtain ⟨target, m, -, -, rfl⟩ := mem_asked_imported hr
    exact .inr trivial
  | exported p m name =>
    rcases mem_asked_exported hr with
      ⟨e, ho, rfl⟩ | ⟨inner, ho, rfl⟩ | ⟨request, exported, -, rfl⟩
    · exact (unreferenced posed).imp id fun apart n hn =>
        apart n (Module.references_subset_of_exportOrigin? ho hn)
    · exact (unreferenced posed).imp id fun apart =>
        apart inner (Module.references_subset_of_exportOrigin? ho List.mem_cons_self)
    · exact .inr trivial

/-- A question asks the same in both codebases, in the second one maybe by way of a name. -/
theorem plan_inCode (h : code.Restated fresh code') (hq : code.Kept fresh code' q) :
    code'.plan (q.inCode code') = (code.plan q).map (Query.inCode code') ∨
      ∃ b, b.hops = 0 ∧ code'.plan (q.inCode code') = .first [b] ∧
        code'.plan b = (code.plan q).map (Query.inCode code') := by
  obtain ⟨posed, avoids⟩ := hq
  cases q with
  | value p m e =>
    obtain ⟨m', hm', -⟩ := h.module?_of_module? (p := p) posed
    rw [Query.inCode_value hm']
    exact .inl (plan_value_inCode hm' e)
  | binding p m name =>
    obtain ⟨m', hm', same⟩ := h.module?_of_module? (p := p) posed
    rw [Query.inCode_binding hm']
    have alike : m'.initial? name = m.initial? name ∧
        m'.importOrigin? name = m.importOrigin? name := by
      rcases same with rfl | restated
      · exact ⟨rfl, rfl⟩
      · rcases avoids with unchanged | apart
        · have hm : code.module? p = some m := posed
          rw [Query.file, hm, hm'] at unchanged
          cases unchanged
          exact ⟨rfl, rfl⟩
        · exact ⟨restated.initial?_eq apart, restated.importOrigin?_eq apart⟩
    exact .inl (plan_binding_inCode hm' alike.1 alike.2)
  | imported p request name =>
    rw [Query.inCode_imported]
    refine .inl (plan_imported_inCode (h.target?_eq p request) fun target _ => ?_)
    rcases h.module?_cases target with same | ⟨m, m', hm, hm', -⟩
    · rw [same]
    · rw [hm, hm']
      rfl
  | exported p m name =>
    obtain ⟨m', hm', same⟩ := h.module?_of_module? (p := p) posed
    rw [Query.inCode_exported hm']
    rcases same with rfl | restated
    · exact .inl (plan_exported_inCode hm' rfl rfl)
    · rcases restated.relays name with ho | ⟨inner, origin, ho, ho', inward⟩
      · exact .inl (plan_exported_inCode hm' ho (restated.starSources_eq name))
      · refine .inr ⟨.binding p m' inner, rfl, ?_, ?_⟩
        · simp only [plan, ho']
          rfl
        · rw [plan_binding_of_bindingOrigin? inward]
          simp only [plan, ho]
          exact originPlan_inCode hm' m origin

/-- The plain answers of the first codebase are plain answers of the second one, where they may take
twice as many steps. -/
theorem plain (h : code.Restated fresh code') (hp : code.Plain height hops q a)
    (hq : code.Kept fresh code' q) : code'.Plain (2 * height) hops (q.inCode code') a := by
  induction hp with
  | @intro n k q ask nested ih =>
    -- The questions of the second codebase are answered as those that they stand for in the first.
    let back : Query → Option Json := fun r => ask (r.inCode code)
    have agree : ∀ r ∈ (code.plan q).asked ask, back (r.inCode code') = ask r := by
      intro r hr
      simp only [back, Query.inCode_inCode (h.kept_of_asked hq hr).posed]
    have step {q' : Query} (same : code'.plan q' = (code.plan q).map (Query.inCode code')) :
        code'.Plain (2 * n + 1) (k + q'.hops) q' ((code.plan q).result ask) :=
      .map same agree fun r hr => ih r hr (h.kept_of_asked hq hr)
    rcases h.plan_inCode hq with same | ⟨b, hb, hp, same⟩
    · rw [← Query.hops_inCode code' q]
      exact (step same).mono (by omega) (Nat.le_refl _)
    · have inner := step same
      rw [hb] at inner
      rw [← Query.hops_inCode code' q]
      exact .first hp inner

/-- The plain answers of the second codebase are plain answers of the first one. -/
theorem plain_of_plain_inCode (h : code.Restated fresh code')
    (hp : code'.Plain height hops (q.inCode code') a) (hq : code.Kept fresh code' q) :
    code.Plain height hops q a := by
  induction height using Nat.strong_induction_on generalizing hops q a with
  | _ height ih =>
    -- A step by way of a name only makes the derivation higher, so it may be left out.
    rcases h.plan_inCode hq with same | ⟨b, hb, first, same⟩
    · obtain ⟨n, k, ask, rfl, rfl, rfl, nested⟩ := hp.last_of_map same
      rw [Query.hops_inCode]
      exact .intro fun r hr =>
        ih n (Nat.lt_succ_self n) (nested r hr) (h.kept_of_asked hq hr)
    · obtain ⟨n, k, rfl, rfl, inner⟩ := hp.of_first first
      obtain ⟨n', k', ask, rfl, rfl, rfl, nested⟩ := inner.last_of_map same
      rw [Query.hops_inCode, hb]
      have outer : code.Plain (n' + 1) (k' + q.hops) q ((code.plan q).result ask) :=
        .intro fun r hr => ih n' (by omega) (nested r hr) (h.kept_of_asked hq hr)
      exact outer.mono (by omega) (Nat.le_refl _)

/-- Lookups find the plain answers of a question in both codebases, when it has them in one. -/
private theorem answer_eq (h : code.Restated fresh code') (hc : code.Coherent)
    (hc' : code'.Coherent) (hq : code.Kept fresh code' q) (height : Nat) (found : Option Json)
    (hq' : code'.Posed (q.inCode code'))
    (hp : code.Plain height Trail.hopLimit q found ∨
      code'.Plain height Trail.hopLimit (q.inCode code') found) :
    code.answer [] q = found ∧ code'.answer [] (q.inCode code') = found := by
  have empty_hops : Trail.hops [] + Trail.hopLimit ≤ Trail.hopLimit := by decide
  have first : code.Plain height Trail.hopLimit q found :=
    hp.elim id fun second => h.plain_of_plain_inCode second hq
  have second := h.plain first hq
  exact ⟨(first.answer_eq hc hq.posed empty_hops fresh_nil).1,
    (second.answer_eq hc' hq' empty_hops fresh_nil).1⟩

end Restated

private theorem restated_ofTree (aliases : AliasTable) {t t' : FileTree} {place : List String}
    {fresh : Option String} (paths : t.AgreesOutside {place} t')
    (reshaped : ∀ p node, t.locate p = .ok (place, node) →
      (∃ n n', t.readModule p = .ok n ∧ t'.readModule p = .ok n' ∧ Module.Reshaped fresh n n') ∨
        ∃ e e', t.readModule p = .error e ∧ t'.readModule p = .error e') :
    (ofTree aliases t).Restated fresh (ofTree aliases t') := by
  refine ⟨fun p request => resolve?_eq paths.isFile_eq p request, fun p => ?_⟩
  by_cases there : ∃ node, t.locate p = .ok (place, node)
  · obtain ⟨node, hl⟩ := there
    rcases reshaped p node hl with ⟨n, n', hn, hn', shape⟩ | ⟨e, e', he, he'⟩
    · exact .inr ⟨n, n', module?_ofTree.2 hn, module?_ofTree.2 hn', shape.restated⟩
    · left
      simp only [ofTree, he, he']
      rfl
  · left
    have kept : ∀ place' node, t.locate p = .ok (place', node) → place' ∉ ({place} : Set _) := by
      intro place' node hl hp
      rw [Set.mem_singleton_iff.1 hp] at hl
      exact there ⟨node, hl⟩
    simp only [ofTree, paths.readModule_eq kept]

/-- No lookup depends on the shape in which an export is written. Two trees have the same paths and
differ in one file, whose module in the second one is its module in the first one with an export
written in two statements. Then a file that holds a module in the first tree holds one in the
second. Every export of it that has a plain answer in one of the trees, with at most as many nested
imports as files may be entered, has that value in both, and so has every name but the fresh one. -/
theorem lookup_reshaped (aliases : AliasTable) {t t' : FileTree} {place : List String}
    {fresh : Option String} (paths : t.AgreesOutside {place} t')
    (reshaped : ∀ p node, t.locate p = .ok (place, node) →
      (∃ n n', t.readModule p = .ok n ∧ t'.readModule p = .ok n' ∧ Module.Reshaped fresh n n') ∨
        ∃ e e', t.readModule p = .error e ∧ t'.readModule p = .error e')
    {file : Path} {m : Module} (hm : t.readModule file = .ok m) :
    ∃ m', t'.readModule file = .ok m' ∧
      ∀ name height found,
        ((ofTree aliases t).Plain height Trail.hopLimit (.exported file m name) found ∨
            (ofTree aliases t').Plain height Trail.hopLimit (.exported file m' name) found →
          (ofTree aliases t).exportValue? [] file m name = found ∧
            (ofTree aliases t').exportValue? [] file m' name = found) ∧
        (fresh ≠ some name →
          (ofTree aliases t).Plain height Trail.hopLimit (.binding file m name) found ∨
            (ofTree aliases t').Plain height Trail.hopLimit (.binding file m' name) found →
          (ofTree aliases t).bindingValue? [] file m name = found ∧
            (ofTree aliases t').bindingValue? [] file m' name = found) := by
  have restated := restated_ofTree aliases paths reshaped
  have coherent := coherent_ofTree aliases t
  have coherent' := coherent_ofTree aliases t'
  have known : (ofTree aliases t).module? file = some m := module?_ofTree.2 hm
  obtain ⟨m', known', -⟩ := restated.module?_of_module? known
  refine ⟨m', module?_ofTree.1 known', fun name height found => ⟨fun plain => ?_, ?_⟩⟩
  · have kept : (ofTree aliases t).Kept fresh (ofTree aliases t') (.exported file m name) :=
      ⟨known, .inr trivial⟩
    have same := restated.answer_eq coherent coherent' kept height found
    rw [Query.inCode_exported known'] at same
    exact same known' plain
  · intro apart plain
    have kept : (ofTree aliases t).Kept fresh (ofTree aliases t') (.binding file m name) :=
      ⟨known, .inr apart⟩
    have same := restated.answer_eq coherent coherent' kept height found
    rw [Query.inCode_binding known'] at same
    exact same known' plain

/-- The files of `siblingTree`, with the text exported by a list. -/
def listedTree : FileTree :=
  ⟨.dir [("t.ts", .file "const t = 'T'; export { t }".toUTF8),
    ("p.ts", .file "import { t } from './t'; export const x = { l: t, r: t }".toUTF8)], []⟩

private theorem parse?_listed (dialect : Dialect) :
    Module.parse? dialect "export const t = 'T'" =
        some ⟨[.exportVariables [⟨some "t", some (.str "T")⟩]]⟩ ∧
      Module.parse? dialect "const t = 'T'; export { t }" =
        some ⟨[.declareVariables [⟨some "t", some (.str "T")⟩],
          .exportNames none [⟨"t", "t"⟩]]⟩ := by
  obtain ⟨typed, markup⟩ := dialect
  cases typed <;> cases markup <;> decide +kernel

private theorem agreesOutside_listedTree : siblingTree.AgreesOutside {["t.ts"]} listedTree :=
  ⟨rfl, .dir (.cons ⟨rfl, .file (.inl rfl)⟩ (.cons ⟨rfl, .file (.inr rfl)⟩ .nil))⟩

private theorem reshaped_listedTree (p : Path) (node : Node)
    (h : siblingTree.locate p = .ok (["t.ts"], node)) :
    ∃ n n', siblingTree.readModule p = .ok n ∧ listedTree.readModule p = .ok n' ∧
      Module.Reshaped none n n' := by
  have alike := agreesOutside_listedTree.locate p
  rw [h] at alike
  generalize h' : listedTree.locate p = reached at alike
  cases alike with
  | @ok _ _ node' agree =>
    have there := FileTree.get?_of_locate h
    have there' := FileTree.get?_of_locate h'
    cases there
    cases there'
    refine ⟨_, _, FileTree.readModule_of_locate h fun dialect => (parse?_listed dialect).1,
      FileTree.readModule_of_locate h' fun dialect => (parse?_listed dialect).2, ?_⟩
    exact @Module.Reshaped.listed [] [] "t" (.str "T") List.not_mem_nil List.not_mem_nil

/-- A page finds a text that it imports in whatever shape the text is exported. -/
theorem lookup_reshaped_sibling :
    siblingTree.AgreesOutside {["t.ts"]} listedTree ∧
      (∀ p node, siblingTree.locate p = .ok (["t.ts"], node) →
        ∃ n n', siblingTree.readModule p = .ok n ∧ listedTree.readModule p = .ok n' ∧
          Module.Reshaped none n n') ∧
      siblingTree.readModule ⟨"/p.ts"⟩ = .ok siblingPage ∧
      ∃ m', listedTree.readModule ⟨"/p.ts"⟩ = .ok m' ∧
        (ofTree ⟨[]⟩ listedTree).exportValue? [] ⟨"/p.ts"⟩ m' "x" =
          some (.obj [("l", .str "T"), ("r", .str "T")]) ∧
        (ofTree ⟨[]⟩ listedTree).bindingValue? [] ⟨"/p.ts"⟩ m' "t" = some (.str "T") := by
  obtain ⟨m', hm', found⟩ := lookup_reshaped ⟨[]⟩ agreesOutside_listedTree
    (fun p node h => .inl (reshaped_listedTree p node h)) readModule_siblingPage
  have exported := plain_sibling_export.mono (Nat.le_refl 8) (show 1 ≤ Trail.hopLimit by decide)
  have bound := plain_sibling_binding.mono (Nat.le_refl 5) (show 1 ≤ Trail.hopLimit by decide)
  obtain ⟨-, hx⟩ := (found "x" 8 _).1 (.inl exported)
  obtain ⟨-, ht⟩ := (found "t" 5 _).2 (by simp) (.inl bound)
  exact ⟨agreesOutside_listedTree, reshaped_listedTree, readModule_siblingPage, m', hm', hx, ht⟩

end Codebase

end PageIndex
