import PageIndex.Proofs.FileTree.Texts
import PageIndex.Proofs.Lookup.Frame
import PageIndex.Proofs.Lookup.Imports
import PageIndex.Script.Equality

/-!
# Exports that are handed on

A module may hand on an export of another one, under the same name or a new one. A lookup through
such a module puts the export on the trail before it comes to where it is made, while a lookup
that starts there does not. The main statements are `exportValue?_of_forwards`, that this is all
the difference there is, and `lookup_through_forward`, when it makes none.

It does make a difference to an export that leads to itself: the lookup that starts there goes
round once more, and finds an inner copy of the value that the other lookup does not find.
-/

namespace PageIndex

open Script

namespace Codebase

variable {code : Codebase} {f g : Path} {mf mg : Module} {x y : String}

/-- Whether the module `mf` in `f` hands on, as `y`, the export `x` of the module in `g`: it
exports it from there, or it imports it and exports the imported name. -/
def Forwards (code : Codebase) (f : Path) (mf : Module) (y : String) (g : Path) (x : String) :
    Prop :=
  ∃ request, code.target? f request = some g ∧
    (mf.exportOrigin? y = some (.imported request x) ∨
      ∃ name, mf.exportOrigin? y = some (.binding name) ∧ mf.initial? name = none ∧
        mf.importOrigin? name = some (.imported request x))

/-- A module that only exports something from another one hands it on. -/
theorem forwards_exportFrom {request : String} (ht : code.target? f request = some g) :
    code.Forwards f ⟨[.exportNames (some request) [⟨x, y⟩]]⟩ y g x := by
  refine ⟨request, ht, .inl ?_⟩
  simp [Module.exportOrigin?, Statement.defaultOrigin?, Statement.exportOrigin?]

/-- A module that only imports something and exports it hands it on. -/
theorem forwards_importExport {request name : String} (ht : code.target? f request = some g) :
    code.Forwards f
      ⟨[.importFrom request [.named x name], .exportNames none [⟨name, y⟩]]⟩ y g x := by
  refine ⟨request, ht, .inr ⟨name, ?_, ?_, ?_⟩⟩
  · simp [Module.exportOrigin?, List.findSome?_cons, Statement.defaultOrigin?,
      Statement.exportOrigin?]
  · simp [Module.initial?, Statement.initial?, Statement.declarator?, Statement.declarators]
  · simp [Module.importOrigin?, Statement.importOrigin?]

private theorem importedValue?_of_admits {trail : Trail} {request : String}
    (ht : code.target? f request = some g) (hg : code.module? g = some mg)
    (ha : trail.admits ⟨g, .exported x⟩ = true) :
    code.importedValue? trail f request x =
      code.exportValue? (⟨g, .exported x⟩ :: trail) g mg x := by
  rw [importedValue?, ht]
  simp only [dif_pos ha, hg]

private theorem liesUpon_of_unreached {name : String} {d : Call} (hg : code.module? g = some mg)
    (unreached : ∀ p, code.Reaches g p → p.components ≠ f.components)
    (hd : code.LeadsTo ⟨[⟨g, .exported x⟩], .exported g mg x⟩ d) :
    d.trail.LiesUpon [⟨f, .binding name⟩] := by
  have posed : code.Posed (.exported g mg x) := hg
  obtain ⟨-, -, seen⟩ := Posed.of_leadsTo hd posed
  constructor
  · apply hops_le_of_leadsTo hd
    simp [Trail.hops, Reference.isExported, Trail.hopLimit]
  · intro v hv
    have reached : code.Reaches g v.file := by
      rcases seen v hv with hv | hv
      · rw [List.mem_singleton.1 hv]
        exact .refl
      · exact hv
    have elsewhere := unreached v.file reached
    simp [Trail.holds, Visit.same, elsewhere]

/-- A lookup through a module that hands an export on finds what a lookup of the export finds
that has it on its trail already, provided that the export does not lead to the module. -/
theorem exportValue?_of_forwards (hg : code.module? g = some mg)
    (forwards : code.Forwards f mf y g x)
    (unreached : ∀ p, code.Reaches g p → p.components ≠ f.components) :
    code.exportValue? [] f mf y = code.exportValue? [⟨g, .exported x⟩] g mg x := by
  obtain ⟨request, ht, ho | ⟨name, ho, hi, hn⟩⟩ := forwards
  · rw [exportValue?]
    simp only [ho, originValue?]
    exact importedValue?_of_admits ht hg rfl
  · have imported : code.bindingValue? [] f mf name =
        code.importedValue? [⟨f, .binding name⟩] f request x := by
      have entered : code.enter? [] (.binding f mf name) = some [⟨f, .binding name⟩] :=
        enter?_eq_some_iff.2 (.inr ⟨⟨f, .binding name⟩, rfl, rfl, rfl⟩)
      have h := answer_eq code [] (.binding f mf name)
      rw [entered, Option.bind_some] at h
      simp only [plan, hi, hn, Plan.result_first_singleton] at h
      exact h
    have admitted : Trail.admits [⟨f, .binding name⟩] ⟨g, .exported x⟩ = true := by
      rw [Trail.admits_iff]
      constructor
      · simp [Trail.hops, Reference.isExported, Trail.hopLimit]
      · simp [Trail.holds, Visit.same]
    calc code.exportValue? [] f mf y
        = code.bindingValue? [] f mf name := by
          rw [exportValue?]
          simp only [ho, originValue?]
      _ = code.importedValue? [⟨f, .binding name⟩] f request x := imported
      _ = code.exportValue? [⟨g, .exported x⟩, ⟨f, .binding name⟩] g mg x :=
          importedValue?_of_admits ht hg admitted
      -- The imported name lies under the export, where the lookup does not meet it.
      _ = code.exportValue? [⟨g, .exported x⟩] g mg x :=
          answer_append fun _ hd => liesUpon_of_unreached hg unreached hd

/-- Whether at most `n` files are entered one from another wherever a call leads. -/
def Nests (code : Codebase) (n : Nat) (c : Call) : Prop :=
  ∀ d, code.LeadsTo c d → d.trail.hops ≤ n

/-- Whether something is looked for anywhere that a call leads. -/
def Meets (code : Codebase) (c : Call) (v : Visit) : Prop :=
  ∃ d, code.LeadsTo c d ∧ d.trail.holds v = true

/-- A lookup of an export that does not meet the export again finds the same with the export on
its trail already, as long as one more file may be entered. -/
theorem exportValue?_of_not_meets (nests : code.Nests 31 ⟨[], .exported g mg x⟩)
    (unmet : ¬ code.Meets ⟨[], .exported g mg x⟩ ⟨g, .exported x⟩) :
    code.exportValue? [⟨g, .exported x⟩] g mg x = code.exportValue? [] g mg x := by
  have lies : ∀ d, code.LeadsTo ⟨[], .exported g mg x⟩ d →
      d.trail.LiesUpon [⟨g, .exported x⟩] := by
    intro d hd
    constructor
    · have room : d.trail.hops ≤ 31 := nests d hd
      simp only [Trail.hops_cons, Reference.isExported, if_true, Trail.hopLimit]
      have none_below : Trail.hops [] = 0 := rfl
      omega
    · intro v hv
      rw [Trail.holds, List.any_eq_false]
      intro w hw hs
      apply unmet
      refine ⟨d, hd, List.any_eq_true.2 ⟨v, hv, ?_⟩⟩
      rw [List.mem_singleton.1 hw, Visit.same_comm] at hs
      exact hs
  exact answer_append lies

/-- When a module hands on an export that does not lead to it, a lookup through it finds what a
lookup of the export finds that is kept from the export itself. So the two lookups find the same
exactly if being kept from itself changes nothing for the export. That is so whenever the lookup
of the export does not meet the export again and leaves one more file to enter. -/
theorem lookup_through_forward (aliases : AliasTable) (tree : FileTree) {f g : Path}
    {mf mg : Module} {x y : String} (hg : tree.readModule g = .ok mg)
    (forwards : (ofTree aliases tree).Forwards f mf y g x)
    (unreached : ∀ p, (ofTree aliases tree).Reaches g p → p.components ≠ f.components) :
    (ofTree aliases tree).exportValue? [] f mf y =
        (ofTree aliases tree).exportValue? [⟨g, .exported x⟩] g mg x ∧
      ((ofTree aliases tree).exportValue? [] f mf y =
          (ofTree aliases tree).exportValue? [] g mg x ↔
        (ofTree aliases tree).exportValue? [⟨g, .exported x⟩] g mg x =
          (ofTree aliases tree).exportValue? [] g mg x) ∧
      ((ofTree aliases tree).Nests 31 ⟨[], .exported g mg x⟩ →
        ¬ (ofTree aliases tree).Meets ⟨[], .exported g mg x⟩ ⟨g, .exported x⟩ →
          (ofTree aliases tree).exportValue? [] f mf y =
            (ofTree aliases tree).exportValue? [] g mg x) := by
  have known : (ofTree aliases tree).module? g = some mg := module?_ofTree.2 hg
  have through := exportValue?_of_forwards known forwards unreached
  refine ⟨through, ?_, ?_⟩
  · rw [through]
  · intro nests unmet
    rw [through]
    exact exportValue?_of_not_meets nests unmet

/-- A text with an export that leads to itself, and one that leads to another export. -/
def loopText : String :=
  "import { x as y, t as z } from './g'; export const x = { a: y }, t = 'T', u = { b: z }"

/-- The file of that text, and two files that hand its exports on. -/
def loopTree : FileTree :=
  ⟨.dir [("f.ts", .file "export { x as y } from './g'".toUTF8), ("g.ts", .file loopText.toUTF8),
    ("h.ts", .file "import { u } from './g'; export { u as v }".toUTF8)], []⟩

private theorem loopTree_eq :
    loopTree = .ofTexts [("f.ts", "export { x as y } from './g'"), ("g.ts", loopText),
      ("h.ts", "import { u } from './g'; export { u as v }")] :=
  rfl

/-- The module that the text stands for. -/
def loopModule : Module :=
  ⟨[.importFrom "./g" [.named "x" "y", .named "t" "z"],
    .exportVariables [⟨some "x", some (.object [.property (.name "a") (.reference "y")])⟩,
      ⟨some "t", some (.str "T")⟩,
      ⟨some "u", some (.object [.property (.name "b") (.reference "z")])⟩]]⟩

private theorem readModule_loopTree :
    loopTree.readModule ⟨"/f.ts"⟩ = .ok ⟨[.exportNames (some "./g") [⟨"x", "y"⟩]]⟩ ∧
      loopTree.readModule ⟨"/g.ts"⟩ = .ok loopModule ∧
      loopTree.readModule ⟨"/h.ts"⟩ =
        .ok ⟨[.importFrom "./g" [.named "u" "u"], .exportNames none [⟨"u", "v"⟩]]⟩ := by
  have entries : FileTree.IsTopEntry ⟨"/f.ts"⟩ "f.ts" ∧ FileTree.IsTopEntry ⟨"/g.ts"⟩ "g.ts" ∧
      FileTree.IsTopEntry ⟨"/h.ts"⟩ "h.ts" := by
    decide
  obtain ⟨f, g, h⟩ := entries
  rw [loopTree_eq]
  exact ⟨FileTree.readModule_ofTexts f rfl (by decide +kernel),
    FileTree.readModule_ofTexts g rfl (by decide +kernel),
    FileTree.readModule_ofTexts h rfl (by decide +kernel)⟩

private abbrev loopFile : Path :=
  ⟨"/g.ts"⟩

private abbrev loopCode : Codebase :=
  ofTree ⟨[]⟩ loopTree

private theorem module?_loopFile : loopCode.module? loopFile = some loopModule :=
  module?_ofTree.2 readModule_loopTree.2.1

private theorem target?_loopTree :
    loopCode.target? ⟨"/f.ts"⟩ "./g" = some loopFile ∧
      loopCode.target? loopFile "./g" = some loopFile ∧
      loopCode.target? ⟨"/h.ts"⟩ "./g" = some loopFile := by
  rw [loopCode, loopTree_eq]
  exact ⟨target?_ofTexts "g" rfl (by decide),
    target?_ofTexts "g" rfl (by decide),
    target?_ofTexts "g" rfl (by decide)⟩

private theorem target?_loopFile : loopCode.target? loopFile "./g" = some loopFile :=
  target?_loopTree.2.1

private theorem plan_loopImport (name : String) :
    loopCode.plan (.imported loopFile "./g" name) =
      .first [.exported loopFile loopModule name] := by
  simp only [plan, target?_loopFile, module?_loopFile]

private theorem enter?_loopImport (trail : Trail) (name : String) :
    loopCode.enter? trail (.imported loopFile "./g" name) =
      if trail.admits ⟨loopFile, .exported name⟩ = true then
        some (⟨loopFile, .exported name⟩ :: trail) else none := by
  simp only [enter?, visit?, target?_loopFile, Option.map_some]

private theorem reaches_loopFile (p : Path) (h : loopCode.Reaches loopFile p) : p = loopFile := by
  induction h with
  | refl => rfl
  | tail _ imports ih =>
    obtain ⟨m, request, hm, hs, ht⟩ := imports
    rw [ih, module?_loopFile, Option.some.injEq] at hm
    rw [← hm] at hs
    have only : request = "./g" := by simpa [loopModule, Module.sources, Statement.sources] using hs
    rw [ih, only, target?_loopFile, Option.some.injEq] at ht
    exact ht.symm

private theorem asked_loopImport (name : String) (ask : Query → Option Json) :
    (loopCode.plan (.imported loopFile "./g" name)).asked ask =
      [.exported loopFile loopModule name] := by
  rw [plan_loopImport, Plan.asked_first_singleton]

private theorem nests_loopExport : loopCode.Nests 31 ⟨[], .exported loopFile loopModule "x"⟩ := by
  refine forall_leadsTo_of_asked (by decide) rfl (Plan.asked_first_singleton _) ?_
  refine forall_leadsTo_of_asked (by decide) rfl rfl ?_
  refine forall_leadsTo_of_asked (by decide) rfl (Plan.asked_first_singleton _) ?_
  refine forall_leadsTo_of_asked (by decide) rfl (Plan.asked_first_singleton _) ?_
  refine forall_leadsTo_of_asked (by decide) ((enter?_loopImport _ _).trans (if_pos rfl))
    (asked_loopImport "x" _) ?_
  refine forall_leadsTo_of_asked (by decide) rfl (Plan.asked_first_singleton _) ?_
  refine forall_leadsTo_of_asked (by decide) rfl rfl ?_
  refine forall_leadsTo_of_asked (by decide) rfl (Plan.asked_first_singleton _) ?_
  exact forall_leadsTo_of_calls_eq_nil (by decide) rfl

private theorem apart_loopExport :
    ∀ d, loopCode.LeadsTo ⟨[], .exported loopFile loopModule "u"⟩ d →
      d.trail.hops ≤ 31 ∧ d.trail.holds ⟨loopFile, .exported "u"⟩ = false := by
  refine forall_leadsTo_of_asked (by decide) rfl (Plan.asked_first_singleton _) ?_
  refine forall_leadsTo_of_asked (by decide) rfl rfl ?_
  refine forall_leadsTo_of_asked (by decide) rfl (Plan.asked_first_singleton _) ?_
  refine forall_leadsTo_of_asked (by decide) rfl (Plan.asked_first_singleton _) ?_
  refine forall_leadsTo_of_asked (by decide) ((enter?_loopImport _ _).trans (if_pos rfl))
    (asked_loopImport "t" _) ?_
  refine forall_leadsTo_of_asked (by decide) rfl (Plan.asked_first_singleton _) ?_
  exact forall_leadsTo_of_calls_eq_nil (by decide) rfl

private theorem answer_loopExport {trail : Trail} {exported key name : String}
    {found : Option Json} (h : loopModule.exportOrigin? exported =
      some (.expression (.object [.property (.name key) (.reference name)])))
    (hn : loopCode.answer trail (.binding loopFile loopModule name) = found) :
    loopCode.exportValue? trail loopFile loopModule exported =
      some (.obj (Members.ofList (found.map (key, ·)).toList)) := by
  have member : loopCode.valueOf trail loopFile loopModule (.reference name) = found := by
    rw [valueOf]
    exact hn
  rw [exportValue?, h]
  simp only [originValue?]
  rw [valueOf, membersOf, membersOf, member]
  cases found <;> rfl

private theorem answer_loopImport {trail : Trail} {name : String} {found : Option Json}
    (h : trail.admits ⟨loopFile, .exported name⟩ = true)
    (hn : loopCode.exportValue? (⟨loopFile, .exported name⟩ :: trail) loopFile loopModule name =
      found) : loopCode.answer trail (.imported loopFile "./g" name) = found := by
  rw [answer_of_first ((enter?_loopImport trail name).trans (if_pos h)) (plan_loopImport name)]
  exact hn

private theorem guarded_loopExport :
    loopCode.exportValue? [⟨loopFile, .exported "x"⟩] loopFile loopModule "x" =
      some (.obj []) := by
  have refused : loopCode.answer [⟨loopFile, .binding "y"⟩, ⟨loopFile, .exported "x"⟩]
      (.imported loopFile "./g" "x") = none :=
    answer_of_refused ((enter?_loopImport _ _).trans (if_neg (by decide)))
  have name : loopCode.answer [⟨loopFile, .exported "x"⟩] (.binding loopFile loopModule "y") =
      none := (answer_of_first rfl rfl).trans refused
  exact answer_loopExport rfl name

private theorem direct_loopExport :
    loopCode.exportValue? [] loopFile loopModule "x" = some (.obj [("a", .obj [])]) := by
  have refused : loopCode.answer [⟨loopFile, .exported "x"⟩, ⟨loopFile, .binding "y"⟩]
      (.binding loopFile loopModule "y") = none := answer_of_refused rfl
  have inner : loopCode.exportValue? [⟨loopFile, .exported "x"⟩, ⟨loopFile, .binding "y"⟩]
      loopFile loopModule "x" = some (.obj []) := answer_loopExport rfl refused
  have name : loopCode.answer [] (.binding loopFile loopModule "y") = some (.obj []) :=
    (answer_of_first rfl rfl).trans (answer_loopImport rfl inner)
  exact answer_loopExport rfl name

private theorem direct_loopExport' :
    loopCode.exportValue? [] loopFile loopModule "u" = some (.obj [("b", .str "T")]) := by
  have inner : loopCode.exportValue? [⟨loopFile, .exported "t"⟩, ⟨loopFile, .binding "z"⟩]
      loopFile loopModule "t" = some (.str "T") := by
    have origin : loopModule.exportOrigin? "t" = some (.expression (.str "T")) := rfl
    rw [exportValue?, origin]
    simp only [originValue?, valueOf]
  have name : loopCode.answer [] (.binding loopFile loopModule "z") = some (.str "T") :=
    (answer_of_first rfl rfl).trans (answer_loopImport rfl inner)
  exact answer_loopExport rfl name

private theorem unreached_loopFile {f : Path} (h : loopFile.components ≠ f.components) :
    ∀ p, loopCode.Reaches loopFile p → p.components ≠ f.components := by
  intro p hp
  rw [reaches_loopFile p hp]
  exact h

/-- The export that does not lead to itself is the same through another module, although its
value comes by way of the module itself. -/
theorem lookup_through_forward_loop :
    loopTree.readModule ⟨"/g.ts"⟩ = .ok loopModule ∧
      loopTree.readModule ⟨"/h.ts"⟩ =
        .ok ⟨[.importFrom "./g" [.named "u" "u"], .exportNames none [⟨"u", "v"⟩]]⟩ ∧
      (ofTree ⟨[]⟩ loopTree).exportValue? [] ⟨"/h.ts"⟩
          ⟨[.importFrom "./g" [.named "u" "u"], .exportNames none [⟨"u", "v"⟩]]⟩ "v" =
        (ofTree ⟨[]⟩ loopTree).exportValue? [] ⟨"/g.ts"⟩ loopModule "u" ∧
      (ofTree ⟨[]⟩ loopTree).exportValue? [] ⟨"/g.ts"⟩ loopModule "u" =
        some (.obj [("b", .str "T")]) := by
  obtain ⟨-, g, h⟩ := readModule_loopTree
  obtain ⟨-, -, h_g⟩ := target?_loopTree
  obtain ⟨-, -, same⟩ := lookup_through_forward ⟨[]⟩ loopTree g (forwards_importExport h_g)
    (unreached_loopFile (by decide))
  refine ⟨g, h, same ?_ ?_, direct_loopExport'⟩
  · exact fun d hd => (apart_loopExport d hd).1
  · rintro ⟨d, hd, hm⟩
    rw [(apart_loopExport d hd).2] at hm
    cases hm

/-- The export that leads to itself loses a part through another module, although the lookup
enters but one file and the module is not reached again. -/
theorem forward_loses_loop :
    loopTree.readModule ⟨"/g.ts"⟩ = .ok loopModule ∧
      loopTree.readModule ⟨"/f.ts"⟩ = .ok ⟨[.exportNames (some "./g") [⟨"x", "y"⟩]]⟩ ∧
      (ofTree ⟨[]⟩ loopTree).target? ⟨"/f.ts"⟩ "./g" = some ⟨"/g.ts"⟩ ∧
      (∀ p, (ofTree ⟨[]⟩ loopTree).Reaches ⟨"/g.ts"⟩ p →
        p.components ≠ (⟨"/f.ts"⟩ : Path).components) ∧
      (ofTree ⟨[]⟩ loopTree).Nests 31 ⟨[], .exported ⟨"/g.ts"⟩ loopModule "x"⟩ ∧
      (ofTree ⟨[]⟩ loopTree).exportValue? [] ⟨"/g.ts"⟩ loopModule "x" =
        some (.obj [("a", .obj [])]) ∧
      (ofTree ⟨[]⟩ loopTree).exportValue? [] ⟨"/f.ts"⟩
          ⟨[.exportNames (some "./g") [⟨"x", "y"⟩]]⟩ "y" =
        some (.obj []) := by
  obtain ⟨f, g, -⟩ := readModule_loopTree
  obtain ⟨f_g, -, -⟩ := target?_loopTree
  have unreached : ∀ p, loopCode.Reaches loopFile p →
      p.components ≠ (⟨"/f.ts"⟩ : Path).components := unreached_loopFile (by decide)
  refine ⟨g, f, f_g, unreached, nests_loopExport, direct_loopExport, ?_⟩
  rw [exportValue?_of_forwards module?_loopFile (forwards_exportFrom f_g) unreached]
  exact guarded_loopExport

end Codebase

end PageIndex
