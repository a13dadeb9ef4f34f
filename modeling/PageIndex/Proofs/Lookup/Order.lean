import Mathlib.Data.List.Nodup
import PageIndex.Proofs.FileTree.Contents
import PageIndex.Proofs.Lookup.Interface
import PageIndex.Proofs.Script.Names
import PageIndex.Script.Equality

/-!
# The order of statements

A module says where its names and exports come from by the first statement that says so. When no two
statements say it of the same name, it does not matter in which order they stand, apart from the
exports of whole modules, which are tried in their order. The main statement is
`lookup_rearranged`.
-/

namespace PageIndex

open Script

section Search

variable {α β γ : Type} {f : α → Option β} {l l' : List α}

/-- A search in which at most one item gives something does not depend on the order. -/
theorem findSome?_eq_of_perm (h : (l.filterMap f).Perm (l'.filterMap f))
    (one : (l.filterMap f).length ≤ 1) : l'.findSome? f = l.findSome? f := by
  rw [← List.head?_filterMap, ← List.head?_filterMap]
  cases hl : l.filterMap f with
  | nil =>
    rw [hl, List.nil_perm] at h
    rw [h]
  | cons b rest =>
    rw [hl] at h one
    have alone : rest = [] := List.length_eq_zero_iff.1 (Nat.le_zero.1 (Nat.le_of_succ_le_succ one))
    rw [alone, List.singleton_perm] at h
    rw [alone, h]

/-- At most one item gives something under a name, if the items have their names only once. -/
theorem length_filterMap_le_one [DecidableEq γ] {names : α → List γ} {name : γ}
    (named : ∀ x b, f x = some b → name ∈ names x) (once : (l.flatMap names).Nodup) :
    (l.filterMap f).length ≤ 1 := by
  have counted : (l.filterMap f).length ≤ (l.flatMap names).count name := by
    clear once
    induction l with
    | nil => simp
    | cons x rest ih =>
      rw [List.flatMap_cons, List.count_append]
      cases hx : f x with
      | none =>
        rw [List.filterMap_cons_none hx]
        exact Nat.le_add_left_of_le ih
      | some b =>
        rw [List.filterMap_cons_some hx, List.length_cons]
        have here : 0 < (names x).count name := List.count_pos_iff.2 (named x b hx)
        omega
  exact counted.trans (List.nodup_iff_count_le_one.1 once name)

end Search

namespace Script

namespace Statement

/-- Whether a statement is about variables, imports or exports. -/
def isRelevant : Statement → Bool
  | .other => false
  | _ => true

end Statement

namespace Module

/-- Whether a module says at most once of each name how it is declared, imported and exported, and
has at most one default export. A name may be declared and imported, and an export may be named
`default` beside the default export. -/
structure Unambiguous (m : Module) : Prop where
  declared : m.declaredNames.Nodup
  imported : m.boundNames.Nodup
  exported : m.exportedNames.Nodup
  default : (m.statements.filterMap Statement.defaultOrigin?).length ≤ 1

/-- Whether two modules have the same statements about variables, imports and exports, in any order
that leaves the exports of whole modules in theirs. -/
structure Rearranged (m m' : Module) : Prop where
  statements :
    (m.statements.filter Statement.isRelevant).Perm (m'.statements.filter Statement.isRelevant)
  stars : m'.statements.filterMap Statement.starSource? =
    m.statements.filterMap Statement.starSource?

variable {m m' : Module}

private theorem filterMap_isRelevant {α : Type} {f : Statement → Option α} (hf : f .other = none)
    (l : List Statement) : (l.filter Statement.isRelevant).filterMap f = l.filterMap f := by
  rw [List.filterMap_filter]
  apply List.filterMap_congr
  intro s hs
  cases s <;> simp [Statement.isRelevant, hf]

/-- What the statements of rearranged modules give is the same in another order. -/
theorem Rearranged.filterMap_perm (h : m.Rearranged m') {α : Type} {f : Statement → Option α}
    (hf : f .other = none) : (m.statements.filterMap f).Perm (m'.statements.filterMap f) := by
  rw [← filterMap_isRelevant hf m.statements, ← filterMap_isRelevant hf m'.statements]
  exact h.statements.filterMap f

/-- A module says the same when its statements are rearranged, if it says everything once. -/
theorem Rearranged.alike (h : m.Rearranged m') (u : m.Unambiguous) : m.Alike m' where
  initial?_eq name :=
    findSome?_eq_of_perm (h.filterMap_perm rfl)
      (length_filterMap_le_one (fun _ _ => Statement.mem_declarators_of_initial?) u.declared)
  importOrigin?_eq name :=
    findSome?_eq_of_perm (h.filterMap_perm rfl)
      (length_filterMap_le_one (fun _ _ => Statement.mem_boundNames_of_importOrigin?) u.imported)
  exportOrigin?_eq name := by
    have named : m'.statements.findSome? (·.exportOrigin? name) =
        m.statements.findSome? (·.exportOrigin? name) :=
      findSome?_eq_of_perm (h.filterMap_perm rfl)
        (length_filterMap_le_one (fun _ _ => Statement.mem_exportedNames_of_exportOrigin?)
          u.exported)
    have default : m'.statements.findSome? Statement.defaultOrigin? =
        m.statements.findSome? Statement.defaultOrigin? :=
      findSome?_eq_of_perm (h.filterMap_perm rfl) u.default
    simp only [exportOrigin?, named, default]
  starSources_eq name := by
    simp only [starSources, h.stars]

/-- A module declares the same exports when its statements are rearranged. -/
theorem Rearranged.declaresExport_eq (h : m.Rearranged m') (name : String) :
    m'.declaresExport name = m.declaresExport name := by
  have declares_iff (l : List Statement) :
      l.any (fun s => s.exportedNames.contains name) =
        (l.filter Statement.isRelevant).any fun s => s.exportedNames.contains name := by
    rw [List.any_filter]
    congr 1
    funext s
    cases s <;> simp [Statement.isRelevant, Statement.exportedNames]
  rw [declaresExport, declaresExport, declares_iff m.statements, declares_iff m'.statements]
  exact h.statements.symm.any_eq

end Module

end Script

namespace Codebase

/-- Lookups do not depend on the order of statements. When two trees have the same paths, the same
files give modules, and the modules are rearrangements of each other that say everything once, then
every name and every export of a file has the same value in both, under every trail, and the file
declares the same exports. -/
theorem lookup_rearranged (aliases : AliasTable) {t t' : FileTree}
    (paths : t.AgreesOutside Set.univ t')
    (parses : ∀ p, (∃ m, t.readModule p = .ok m) ↔ ∃ m', t'.readModule p = .ok m')
    (rearranged : ∀ p m m', t.readModule p = .ok m → t'.readModule p = .ok m' →
      m.Rearranged m' ∧ m.Unambiguous)
    {file : Path} {m m' : Module} (hm : t.readModule file = .ok m)
    (hm' : t'.readModule file = .ok m') (trail : Trail) (name : String) :
    (ofTree aliases t').exportValue? trail file m' name =
        (ofTree aliases t).exportValue? trail file m name ∧
      (ofTree aliases t').bindingValue? trail file m' name =
        (ofTree aliases t).bindingValue? trail file m name ∧
      m'.declaresExport name = m.declaresExport name := by
  have alike : (ofTree aliases t).Alike Set.univ (ofTree aliases t') := by
    refine ⟨fun p request => resolve?_eq paths.isFile_eq p request, fun {p} _ => ?_,
      fun _ _ => Set.mem_univ _⟩
    simp only [ofTree]
    cases hp : t.readModule p with
    | ok n =>
      obtain ⟨n', hp'⟩ := (parses p).1 ⟨n, hp⟩
      obtain ⟨moved, once⟩ := rearranged p n n' hp hp'
      rw [hp']
      exact .some (moved.alike once)
    | error e =>
      cases hp' : t'.readModule p with
      | ok n' =>
        obtain ⟨n, hn⟩ := (parses p).2 ⟨n', hp'⟩
        rw [hn] at hp
        cases hp
      | error e' => exact .none
  have known : (ofTree aliases t).module? file = some m := module?_ofTree.2 hm
  have known' : (ofTree aliases t').module? file = some m' := module?_ofTree.2 hm'
  obtain ⟨moved, -⟩ := rearranged file m m' hm hm'
  exact ⟨alike.exportValue?_eq (Set.mem_univ _) known known' trail name,
    alike.bindingValue?_eq (Set.mem_univ _) known known' trail name,
    moved.declaresExport_eq name⟩

/-- A module that declares a name and imports it, too. -/
def orderText : String :=
  "import { x } from './b'; export default x; const x = 'L'"

/-- The same statements in another order, with one that is of no account. -/
def reorderText : String :=
  "const x = 'L'; f(); export default x; import { x } from './b'"

/-- Two files, the first with the given text. -/
def orderTree (text : String) : FileTree :=
  ⟨.dir [("a.ts", .file text.toUTF8), ("b.ts", .file "export const x = 'T'".toUTF8)], []⟩

/-- The module of `orderText`. -/
def orderModule : Module :=
  ⟨[.importFrom "./b" [.named "x" "x"], .exportDefault (some (.reference "x")),
    .declareVariables [⟨some "x", some (.str "L")⟩]]⟩

/-- The module of `reorderText`. -/
def reorderModule : Module :=
  ⟨[.declareVariables [⟨some "x", some (.str "L")⟩], .other,
    .exportDefault (some (.reference "x")), .importFrom "./b" [.named "x" "x"]]⟩

private def otherModule : Module :=
  ⟨[.exportVariables [⟨some "x", some (.str "T")⟩]]⟩

private theorem parse?_order (dialect : Dialect) :
    Module.parse? dialect orderText = some orderModule ∧
      Module.parse? dialect reorderText = some reorderModule ∧
      Module.parse? dialect "export const x = 'T'" = some otherModule := by
  obtain ⟨typed, markup⟩ := dialect
  cases typed <;> cases markup <;> decide +kernel

private theorem agreesOutside_orderTree (text text' : String) :
    (orderTree text).AgreesOutside Set.univ (orderTree text') :=
  ⟨rfl, .dir (.cons ⟨rfl, .file (.inl trivial)⟩ (.cons ⟨rfl, .file (.inr rfl)⟩ .nil))⟩

private theorem readModule_orderTree {text : String} {m : Module}
    (hm : ∀ dialect, Module.parse? dialect text = some m) {p : Path} {place : List String}
    {node : Node} (h : (orderTree text).locate p = .ok (place, node)) :
    (orderTree text).readModule p =
      if place = ["a.ts"] then .ok m
      else if place = ["b.ts"] then .ok otherModule
      else .error (.unreadable .isDirectory) := by
  rcases Node.get?_of_files [("a.ts", text.toUTF8), ("b.ts", "export const x = 'T'".toUTF8)]
    (FileTree.get?_of_locate h) with
    ⟨rfl, entries, rfl⟩ | ⟨name, content, rfl, rfl, hl⟩
  · simp [FileTree.readModule, FileTree.readText, h]
  · by_cases ha : name = "a.ts"
    · subst ha
      rw [if_pos rfl]
      cases hl
      exact FileTree.readModule_of_locate h hm
    · have hb : name = "b.ts" := by
        by_contra hb
        rw [← ne_eq, ← beq_eq_false_iff_ne] at ha hb
        simp [List.lookup_cons, ha, hb] at hl
      subst hb
      rw [if_neg (by decide), if_pos rfl]
      cases hl
      exact FileTree.readModule_of_locate h fun dialect => (parse?_order dialect).2.2

private theorem readModule_orderTrees (p : Path) :
    (∃ e e', (orderTree orderText).readModule p = .error e ∧
        (orderTree reorderText).readModule p = .error e') ∨
      ((orderTree orderText).readModule p = .ok orderModule ∧
        (orderTree reorderText).readModule p = .ok reorderModule) ∨
      ((orderTree orderText).readModule p = .ok otherModule ∧
        (orderTree reorderText).readModule p = .ok otherModule) := by
  have alike := (agreesOutside_orderTree orderText reorderText).locate p
  cases h : (orderTree orderText).locate p <;> cases h' : (orderTree reorderText).locate p <;>
    rw [h, h'] at alike <;> cases alike
  case error.error e =>
    exact .inl ⟨.unreadable e, .unreadable e, by simp [FileTree.readModule, FileTree.readText, h],
      by simp [FileTree.readModule, FileTree.readText, h']⟩
  case ok.ok place node node' agree =>
    rw [readModule_orderTree (fun dialect => (parse?_order dialect).1) h,
      readModule_orderTree (fun dialect => (parse?_order dialect).2.1) h']
    by_cases ha : place = ["a.ts"]
    · exact .inr (.inl ⟨if_pos ha, if_pos ha⟩)
    · rw [if_neg ha, if_neg ha]
      by_cases hb : place = ["b.ts"]
      · exact .inr (.inr ⟨if_pos hb, if_pos hb⟩)
      · exact .inl ⟨_, _, if_neg hb, if_neg hb⟩

private theorem rearranged_modules :
    (orderModule.Rearranged reorderModule ∧ orderModule.Unambiguous) ∧
      otherModule.Rearranged otherModule ∧ otherModule.Unambiguous := by
  refine ⟨⟨⟨by decide +kernel, rfl⟩, ?_⟩, ⟨.refl _, rfl⟩, ?_⟩
  · constructor <;> decide
  · constructor <;> decide

/-- A default export has the same value in either order, although the name that it refers to is
imported as well as declared. -/
theorem lookup_rearranged_default :
    (orderTree orderText).AgreesOutside Set.univ (orderTree reorderText) ∧
      (∀ p, (∃ m, (orderTree orderText).readModule p = .ok m) ↔
        ∃ m', (orderTree reorderText).readModule p = .ok m') ∧
      (∀ p m m', (orderTree orderText).readModule p = .ok m →
        (orderTree reorderText).readModule p = .ok m' → m.Rearranged m' ∧ m.Unambiguous) ∧
      (orderTree orderText).readModule ⟨"/a.ts"⟩ = .ok orderModule ∧
      (orderTree reorderText).readModule ⟨"/a.ts"⟩ = .ok reorderModule ∧
      (ofTree ⟨[]⟩ (orderTree reorderText)).exportValue? [] ⟨"/a.ts"⟩ reorderModule "default" =
        (ofTree ⟨[]⟩ (orderTree orderText)).exportValue? [] ⟨"/a.ts"⟩ orderModule "default" ∧
      (ofTree ⟨[]⟩ (orderTree orderText)).exportValue? [] ⟨"/a.ts"⟩ orderModule "default" =
        some (.str "L") := by
  have paths := agreesOutside_orderTree orderText reorderText
  have parses (p : Path) : (∃ m, (orderTree orderText).readModule p = .ok m) ↔
      ∃ m', (orderTree reorderText).readModule p = .ok m' := by
    rcases readModule_orderTrees p with ⟨e, e', h, h'⟩ | ⟨h, h'⟩ | ⟨h, h'⟩ <;> simp [h, h']
  have rearranged (p : Path) (m m' : Module) (hm : (orderTree orderText).readModule p = .ok m)
      (hm' : (orderTree reorderText).readModule p = .ok m') :
      m.Rearranged m' ∧ m.Unambiguous := by
    rcases readModule_orderTrees p with ⟨e, e', h, h'⟩ | ⟨h, h'⟩ | ⟨h, h'⟩ <;>
      rw [h] at hm <;> rw [h'] at hm' <;> cases hm <;> cases hm'
    · exact rearranged_modules.1
    · exact rearranged_modules.2
  have located (text : String) : (orderTree text).locate ⟨"/a.ts"⟩ =
      .ok (["a.ts"], .file text.toUTF8) := by
    have steps : FileTree.steps ⟨"/a.ts"⟩ = [.root, .name "a.ts"] := rfl
    have nonempty : Path.chars ⟨"/a.ts"⟩ ≠ [] := by decide
    simp [FileTree.locate, steps, nonempty, FileTree.follow, orderTree, Node.get?, Node.child?]
  have known := FileTree.readModule_of_locate (located orderText) fun dialect =>
    (parse?_order dialect).1
  have known' := FileTree.readModule_of_locate (located reorderText) fun dialect =>
    (parse?_order dialect).2.1
  refine ⟨paths, parses, rearranged, known, known',
    (lookup_rearranged ⟨[]⟩ paths parses rearranged known known' [] "default").1, ?_⟩
  have origin : orderModule.exportOrigin? "default" = some (.expression (.reference "x")) := rfl
  have initial : orderModule.initial? "x" = some (.str "L") := rfl
  have admitted : Trail.admits [] ⟨⟨"/a.ts"⟩, .binding "x"⟩ = true := rfl
  rw [exportValue?, origin]
  simp only [originValue?, valueOf]
  rw [bindingValue?, dif_pos admitted]
  split
  · next e he =>
    rw [initial] at he
    cases he
    rw [valueOf]
  · next he => cases he

end Codebase

end PageIndex
