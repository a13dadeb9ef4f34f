import Mathlib.Data.Nat.Find
import PageIndex.Proofs.FileTree.Texts
import PageIndex.Proofs.Lookup.Plain
import PageIndex.Script.Equality

/-!
# The guard of a lookup

A lookup refuses what is on its trail and what would enter too many files. The main statement is
`lookup_eq_plain`: neither happens to a question that has a plain answer with few enough imports
nested in one another, and the lookup finds that answer.

A trail is fresh below a height when none of its visits belongs to a question with a plain answer
of that height. A question that has such an answer is then not on the trail. Taking it up at the
least height of its derivations keeps the trail fresh for the questions that it leads to, because
those have lower derivations, and the question itself has none that is lower.
-/

namespace PageIndex

open Script

namespace Codebase

variable {code : Codebase} {height hops : Nat} {q : Query} {a : Option Json} {trail : Trail}

/-- Imports that lead to spellings of one file have the same plain answers. -/
private theorem Plain.of_same_target (hc : code.Coherent) {p p' target target' : Path}
    {request request' name : String} (ht : code.target? p request = some target)
    (ht' : code.target? p' request' = some target')
    (hs : target.components = target'.components)
    (h : code.Plain height hops (.imported p request name) a) :
    code.Plain height hops (.imported p' request' name) a := by
  have hm : code.module? target = code.module? target' :=
    hc.module?_congr (.inr ⟨p, request, ht⟩) (.inr ⟨p', request', ht'⟩) hs
  cases hm' : code.module? target' with
  | none =>
    have hp : code.plan (.imported p request name) = .known none := by
      simp only [plan, ht, hm, hm']
    have hp' : code.plan (.imported p' request' name) = .known none := by
      simp only [plan, ht', hm']
    obtain ⟨n, k, ask, rfl, rfl, rfl, -⟩ := h.last
    rw [hp]
    exact .known hp'
  | some m =>
    have hp : code.plan (.imported p request name) = .first [.exported target m name] := by
      simp only [plan, ht, hm, hm']
    have hp' : code.plan (.imported p' request' name) = .first [.exported target' m name] := by
      simp only [plan, ht', hm']
    obtain ⟨n, k, rfl, rfl, inner⟩ := h.of_first hp
    exact .first hp' (inner.respell hc hs)

/-- Questions that look for the same thing have the same plain answers. -/
theorem Plain.of_same_visit (hc : code.Coherent) {r : Query} {v w : Visit} (hq : code.Posed q)
    (hr : code.Posed r) (hv : code.visit? q = some v) (hw : code.visit? r = some w)
    (hs : v.same w = true) (h : code.Plain height hops q a) : code.Plain height hops r a := by
  obtain ⟨hf, hn⟩ := Visit.same_iff.1 hs
  cases q with
  | value p m e => cases hv
  | exported p m name => cases hv
  | binding p m name =>
    cases hv
    cases r with
    | value p' m' e => cases hw
    | exported p' m' name' => cases hw
    | binding p' m' name' =>
      cases hw
      cases hn
      have hm : code.module? p = code.module? p' :=
        hc.module?_congr (.inl ⟨m, hq⟩) (.inl ⟨m', hr⟩) hf
      have hq' : code.module? p = some m := hq
      have hr' : code.module? p' = some m' := hr
      rw [hq', hr'] at hm
      cases hm
      exact h.respell hc hf
    | imported p' request name' =>
      obtain ⟨target, -, rfl⟩ := Option.map_eq_some_iff.1 hw
      cases hn
  | imported p request name =>
    obtain ⟨target, ht, rfl⟩ := Option.map_eq_some_iff.1 hv
    cases r with
    | value p' m' e => cases hw
    | exported p' m' name' => cases hw
    | binding p' m' name' =>
      cases hw
      cases hn
    | imported p' request' name' =>
      obtain ⟨target', ht', rfl⟩ := Option.map_eq_some_iff.1 hw
      cases hn
      exact Plain.of_same_target hc ht ht' hf h

/-- No visit of the trail belongs to a question with a plain answer of the given height. -/
def Fresh (code : Codebase) (height : Nat) (trail : Trail) : Prop :=
  ∀ v ∈ trail, ∀ r w, code.Posed r → code.visit? r = some w → v.same w = true →
    ∀ hops a, ¬ code.Plain height hops r a

/-- A trail that is fresh is fresh below. -/
theorem Fresh.mono {height' : Nat} (h : code.Fresh height trail) (hn : height' ≤ height) :
    code.Fresh height' trail :=
  fun v hv r w hr hw hs hops a hp => h v hv r w hr hw hs hops a (hp.mono hn (Nat.le_refl hops))

/-- The empty trail is fresh. -/
theorem fresh_nil : code.Fresh height [] := by
  intro v hv
  cases hv

/-- What a question looks for counts as many entered files as the question enters. -/
theorem hops_cons_of_visit? {v : Visit} (hv : code.visit? q = some v) :
    Trail.hops (v :: trail) = trail.hops + q.hops := by
  rw [Trail.hops_cons]
  cases q with
  | value p m e => cases hv
  | binding p m name => cases hv; rfl
  | imported p request name =>
    obtain ⟨target, -, rfl⟩ := Option.map_eq_some_iff.1 hv
    rfl
  | exported p m name => cases hv

/-- A question is taken up under a fresh trail. If it has no lower answer than the one at hand,
the trail is still fresh for the questions that it leads to. -/
theorem Fresh.enter? (hc : code.Coherent) (hf : code.Fresh (height + 1) trail)
    (hq : code.Posed q) (hk : trail.hops + (hops + q.hops) ≤ Trail.hopLimit)
    (hp : code.Plain (height + 1) (hops + q.hops) q a)
    (least : ∀ hops a, ¬ code.Plain height hops q a) :
    ∃ inner, code.enter? trail q = some inner ∧ inner.hops + hops ≤ Trail.hopLimit ∧
      code.Fresh height inner := by
  have below : code.Fresh height trail := hf.mono (Nat.le_succ height)
  cases hv : code.visit? q with
  | none => exact ⟨trail, enter?_of_visit?_eq_none hv, by omega, below⟩
  | some v =>
    have admitted : trail.admits v = true := by
      rw [Trail.admits_iff]
      constructor
      · intro he
        have hh : Trail.hops (v :: trail) = trail.hops + q.hops := hops_cons_of_visit? hv
        rw [Trail.hops_cons, he] at hh
        simp only [if_true] at hh
        omega
      · rw [Trail.holds, List.any_eq_false]
        intro w hw hs
        rw [Visit.same_comm] at hs
        exact hf w hw q v hq hv hs _ _ hp
    refine ⟨v :: trail, enter?_eq_some_iff.2 (.inr ⟨v, hv, admitted, rfl⟩), ?_, ?_⟩
    · rw [hops_cons_of_visit? hv]
      omega
    · intro w hw r u hr hu hs k b hb
      rcases List.mem_cons.1 hw with rfl | hw
      · rw [Visit.same_comm] at hs
        exact least k b (Plain.of_same_visit hc hr hq hu hv hs hb)
      · exact below w hw r u hr hu hs k b hb

/-- Whether no question is refused that a call leads to. -/
def Unrefused (code : Codebase) (c : Call) : Prop :=
  ∀ d, code.LeadsTo c d → ∃ inner, code.enter? d.trail d.query = some inner

/-- Under a fresh trail a lookup finds the plain answer, and refuses nothing. -/
theorem Plain.answer_eq (hc : code.Coherent) (h : code.Plain height hops q a)
    (hq : code.Posed q) (hk : trail.hops + hops ≤ Trail.hopLimit)
    (hf : code.Fresh height trail) :
    code.answer trail q = a ∧ code.Unrefused ⟨trail, q⟩ := by
  induction height using Nat.strong_induction_on generalizing hops q a trail with
  | _ height ih =>
    -- The derivation may be taken to be one of the least height.
    classical
    have some_height : ∃ n, ∃ k b, code.Plain n k q b := ⟨height, hops, a, h⟩
    obtain ⟨k, b, lowest⟩ := Nat.find_spec some_height
    have low : Nat.find some_height ≤ height := Nat.find_min' some_height ⟨hops, a, h⟩
    obtain ⟨-, met⟩ := h.meet lowest
    rw [Nat.min_eq_right low] at met
    have least := met.mono (Nat.le_refl _) (Nat.min_le_left hops k)
    obtain ⟨n, k', ask, hn, rfl, rfl, nested⟩ := least.last
    rw [hn] at least low
    obtain ⟨inner, entered, hi, fresh⟩ := (hf.mono low).enter? hc hq hk least fun k b hb =>
      Nat.find_min some_height (hn ▸ Nat.lt_succ_self n) ⟨k, b, hb⟩
    have answers : ∀ r ∈ (code.plan q).asked ask,
        code.answer inner r = ask r ∧ code.Unrefused ⟨inner, r⟩ :=
      fun r hr => ih n low (nested r hr) (hq.of_asked hr).1 hi fresh
    have agree : ∀ r ∈ (code.plan q).asked (code.answer inner), r ∈ (code.plan q).asked ask →
        code.answer inner r = ask r := fun r _ hr => (answers r hr).1
    constructor
    · rw [Codebase.answer_eq, entered, Option.bind_some]
      exact Plan.result_congr agree
    · intro d hd
      rcases hd.cases_head with rfl | ⟨c, hstep, hd⟩
      · exact ⟨inner, entered⟩
      · obtain ⟨he, hr⟩ := mem_calls_iff.1 hstep
        rw [entered, Option.some.injEq] at he
        obtain ⟨trail', r⟩ := c
        subst he
        rw [Plan.asked_congr agree] at hr
        exact (answers r hr).2 d hd

/-- The guard changes no answer that a lookup has without it. When an export or a name of the
module in a file has a plain answer with at most as many nested imports as files may be entered,
the lookup that begins with an empty trail finds that answer, whether it is a value or none, and
refuses nothing on the way. -/
theorem lookup_eq_plain (aliases : AliasTable) (tree : FileTree) {file : Path} {m : Module}
    (hm : tree.readModule file = .ok m) (name : String) {height : Nat} {found : Option Json} :
    ((ofTree aliases tree).Plain height Trail.hopLimit (.exported file m name) found →
      (ofTree aliases tree).exportValue? [] file m name = found ∧
        (ofTree aliases tree).Unrefused ⟨[], .exported file m name⟩) ∧
    ((ofTree aliases tree).Plain height Trail.hopLimit (.binding file m name) found →
      (ofTree aliases tree).bindingValue? [] file m name = found ∧
        (ofTree aliases tree).Unrefused ⟨[], .binding file m name⟩) := by
  have known : (ofTree aliases tree).module? file = some m := module?_ofTree.2 hm
  have empty_hops : Trail.hops [] + Trail.hopLimit ≤ Trail.hopLimit := by decide
  have coherent := coherent_ofTree aliases tree
  exact ⟨fun h => h.answer_eq coherent known empty_hops fresh_nil,
    fun h => h.answer_eq coherent known empty_hops fresh_nil⟩

/-- A page that uses a text twice, and the module that it imports the text from. -/
def siblingTree : FileTree :=
  ⟨.dir [("t.ts", .file "export const t = 'T'".toUTF8),
    ("p.ts", .file "import { t } from './t'; export const x = { l: t, r: t }".toUTF8)], []⟩

private theorem siblingTree_eq :
    siblingTree = .ofTexts [("t.ts", "export const t = 'T'"),
      ("p.ts", "import { t } from './t'; export const x = { l: t, r: t }")] :=
  rfl

/-- The page of `siblingTree`. -/
def siblingPage : Module :=
  ⟨[.importFrom "./t" [.named "t" "t"],
    .exportVariables [⟨some "x", some (.object [.property (.name "l") (.reference "t"),
      .property (.name "r") (.reference "t")])⟩]]⟩

private def siblingText : Module :=
  ⟨[.exportVariables [⟨some "t", some (.str "T")⟩]]⟩

/-- The page of `siblingTree` can be read. -/
theorem readModule_siblingPage :
    siblingTree.readModule ⟨"/p.ts"⟩ = .ok siblingPage := by
  have entry : FileTree.IsTopEntry ⟨"/p.ts"⟩ "p.ts" := by decide
  rw [siblingTree_eq]
  exact FileTree.readModule_ofTexts entry rfl (by decide +kernel)

private theorem readModule_siblingText :
    siblingTree.readModule ⟨"/t.ts"⟩ = .ok siblingText := by
  have entry : FileTree.IsTopEntry ⟨"/t.ts"⟩ "t.ts" := by decide
  rw [siblingTree_eq]
  exact FileTree.readModule_ofTexts entry rfl (by decide +kernel)

/-- The text that the page of `siblingTree` imports has a plain answer. -/
theorem plain_sibling_binding :
    (ofTree ⟨[]⟩ siblingTree).Plain 5 1 (.binding ⟨"/p.ts"⟩ siblingPage "t") (some (.str "T")) := by
  have target : (ofTree ⟨[]⟩ siblingTree).target? ⟨"/p.ts"⟩ "./t" = some ⟨"/t.ts"⟩ := by
    rw [siblingTree_eq]
    exact target?_ofTexts "t" rfl (by decide)
  have module : (ofTree ⟨[]⟩ siblingTree).module? ⟨"/t.ts"⟩ = some siblingText :=
    module?_ofTree.2 readModule_siblingText
  have text : (ofTree ⟨[]⟩ siblingTree).Plain 2 0 (.value ⟨"/t.ts"⟩ siblingText (.str "T"))
      (some (.str "T")) :=
    @Plain.known _ 1 0 (.value ⟨"/t.ts"⟩ siblingText (.str "T")) _ rfl
  have exported : (ofTree ⟨[]⟩ siblingTree).Plain 3 0 (.exported ⟨"/t.ts"⟩ siblingText "t")
      (some (.str "T")) :=
    @Plain.first _ _ _ (.exported ⟨"/t.ts"⟩ siblingText "t") _ _ rfl text
  have imported : (ofTree ⟨[]⟩ siblingTree).Plain 4 1 (.imported ⟨"/p.ts"⟩ "./t" "t")
      (some (.str "T")) := by
    refine @Plain.first _ _ _ (.imported ⟨"/p.ts"⟩ "./t" "t") _ _ ?_ exported
    simp only [plan, target, module]
  exact @Plain.first _ _ _ (.binding ⟨"/p.ts"⟩ siblingPage "t") _ _ rfl imported

/-- The export of the page of `siblingTree` has a plain answer. -/
theorem plain_sibling_export :
    (ofTree ⟨[]⟩ siblingTree).Plain 8 1 (.exported ⟨"/p.ts"⟩ siblingPage "x")
      (some (.obj [("l", .str "T"), ("r", .str "T")])) := by
  have used : (ofTree ⟨[]⟩ siblingTree).Plain 6 1 (.value ⟨"/p.ts"⟩ siblingPage (.reference "t"))
      (some (.str "T")) :=
    @Plain.first _ _ _ (.value ⟨"/p.ts"⟩ siblingPage (.reference "t")) _ _ rfl
      plain_sibling_binding
  have object : (ofTree ⟨[]⟩ siblingTree).Plain 7 1
      (.value ⟨"/p.ts"⟩ siblingPage (.object [.property (.name "l") (.reference "t"),
        .property (.name "r") (.reference "t")]))
      (some (.obj [("l", .str "T"), ("r", .str "T")])) := by
    refine @Plain.intro _ 6 1 (.value ⟨"/p.ts"⟩ siblingPage (.object
      [.property (.name "l") (.reference "t"), .property (.name "r") (.reference "t")]))
      (fun _ => some (.str "T")) fun r hr => ?_
    have both : r = .value ⟨"/p.ts"⟩ siblingPage (.reference "t") := by
      simpa [plan, valuePlan, memberPlan, Plan.asked] using hr
    rw [both]
    exact used
  exact @Plain.first _ _ _ (.exported ⟨"/p.ts"⟩ siblingPage "x") _ _ rfl object

/-- A text that is imported once and used twice is found both times. -/
theorem lookup_siblings :
    siblingTree.readModule ⟨"/p.ts"⟩ = .ok siblingPage ∧
      (ofTree ⟨[]⟩ siblingTree).exportValue? [] ⟨"/p.ts"⟩ siblingPage "x" =
        some (.obj [("l", .str "T"), ("r", .str "T")]) ∧
      (ofTree ⟨[]⟩ siblingTree).bindingValue? [] ⟨"/p.ts"⟩ siblingPage "t" =
        some (.str "T") := by
  obtain ⟨found, -⟩ := (lookup_eq_plain ⟨[]⟩ siblingTree readModule_siblingPage "x").1
    (plain_sibling_export.mono (Nat.le_refl 8) (by decide))
  obtain ⟨found', -⟩ := (lookup_eq_plain ⟨[]⟩ siblingTree readModule_siblingPage "t").2
    (plain_sibling_binding.mono (Nat.le_refl 5) (by decide))
  exact ⟨readModule_siblingPage, found, found'⟩

end Codebase

end PageIndex
