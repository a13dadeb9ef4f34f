import PageIndex.Proofs.FileTree.LinkFree
import PageIndex.Proofs.Lookup.Trail
import PageIndex.Proofs.Resolve.Straight
import PageIndex.Script.Equality

/-!
# One path for each file

A lookup that begins in a file with a straight path enters files with straight paths only. Where
there are no links, a straight path is the one path of its file, so the trail knows a file that is
asked for again, whatever the request looks like. The main statement is
`lookup_keeps_paths_straight`.
-/

namespace PageIndex

open Script

namespace FileTree

/-- Whether a file can be met by a lookup that begins in the file `start`: it has a straight path,
and a request found it if the lookup did not begin there. -/
structure Meets (t : FileTree) (start p : Path) : Prop where
  straight : p.IsStraight
  found : p = start ∨ t.isFile p = true

/-- Without links, files that a lookup can meet are the same exactly when their paths are. -/
theorem LinkFree.canonicalize?_inj {t : FileTree} {start p q : Path} (h : t.LinkFree)
    (hp : t.Meets start p) (hq : t.Meets start q) :
    t.canonicalize? p = t.canonicalize? q ↔ p = q := by
  constructor
  · intro same
    rcases hp.found with begin | file
    · rcases hq.found with begin' | file
      · exact begin.trans begin'.symm
      · exact (h.eq_of_canonicalize?_eq hq.straight hp.straight file same.symm).symm
    · exact h.eq_of_canonicalize?_eq hp.straight hq.straight file same
  · intro same
    rw [same]

end FileTree

section Inherited

variable {P : Path → Prop} {code : Codebase} {start : Path} {c d : Call} {t : Trail}

/-- What holds of the file in which a lookup begins and of all files on its trail holds of the file
that is searched. -/
theorem Trail.searched_of_forall (first : P start) (h : ∀ v ∈ t, P v.file) :
    P (t.searched start) := by
  unfold Trail.searched
  cases found : t.find? (·.sought.isExported) with
  | none => exact first
  | some v => exact h v (List.mem_of_find?_eq_some found)

namespace Codebase

/-- What a file hands on to the files that it asks for holds of the file of what is looked for. -/
theorem file_of_visit? {q : Query} {v : Visit} (looks : code.visit? q = some v)
    (here : P q.file)
    (handed : ∀ p request target, P p → code.target? p request = some target → P target) :
    P v.file := by
  cases q with
  | value file m e => cases looks
  | exported file m name => cases looks
  | binding file m name =>
    cases looks
    exact here
  | imported file request name =>
    obtain ⟨target, leads, rfl⟩ := Option.map_eq_some_iff.1 looks
    exact handed file request target here leads

/-- What files hand on to the files that they ask for holds of all files on the trail of a call when
it holds of those on the trail of the call that made it. -/
theorem files_of_mem_calls (sound : c.Sound start) (first : P start)
    (handed : ∀ p request target, P p → code.target? p request = some target → P target)
    (h : ∀ v ∈ c.trail, P v.file) (made : d ∈ code.calls c) : ∀ v ∈ d.trail, P v.file := by
  have here : P c.query.file := sound.file ▸ Trail.searched_of_forall first h
  obtain ⟨entered, -⟩ := mem_calls_iff.1 made
  obtain ⟨-, same⟩ | ⟨w, looks, -, same⟩ := enter?_eq_some_iff.1 entered
  · rw [same]
    exact h
  · rw [same]
    exact List.forall_mem_cons.2 ⟨file_of_visit? looks here handed, h⟩

/-- What files hand on to the files that they ask for holds of all files on the trail at every call
that a call leads to, when it holds of those on the trail of that call. -/
theorem files_of_leadsTo (sound : c.Sound start) (first : P start)
    (handed : ∀ p request target, P p → code.target? p request = some target → P target)
    (h : ∀ v ∈ c.trail, P v.file) (leads : code.LeadsTo c d) : ∀ v ∈ d.trail, P v.file := by
  induction leads with
  | refl => exact h
  | tail before made ih =>
    exact files_of_mem_calls (sound_of_leadsTo sound before) first handed ih made

/-- What files hand on to the files that they ask for holds at every moment of a lookup of the file
that is searched and of all files on the trail. -/
theorem Moment.files (sound : c.Sound start) (first : P start)
    (handed : ∀ p request target, P p → code.target? p request = some target → P target)
    (h : ∀ v ∈ c.trail, P v.file) {p : Path} (moment : code.Moment c t p) :
    P p ∧ ∀ v ∈ t, P v.file := by
  have known : ∀ v ∈ t, P v.file := by
    cases moment with
    | called made => exact files_of_leadsTo sound first handed h made
    | @entered d v made looks admitted =>
      have below := files_of_leadsTo sound first handed h made
      have here : P d.query.file :=
        (sound_of_leadsTo sound made).file ▸ Trail.searched_of_forall first below
      exact List.forall_mem_cons.2 ⟨file_of_visit? looks here handed, below⟩
  exact ⟨(moment.sound sound).2 ▸ Trail.searched_of_forall first known, known⟩

end Codebase

end Inherited

namespace Codebase

variable {root : Path} {manifest : String} {aliases : AliasTable} {tree : FileTree}

/-- A request in a file that a lookup can meet leads to such a file. -/
theorem meets_of_target? {start importer target : Path} {request : String}
    (rooted : aliases.IsRooted) (top : tree.isFile ⟨"/"⟩ = false) (h : tree.Meets start importer)
    (leads : (ofTree aliases tree).target? importer request = some target) :
    tree.Meets start target :=
  ⟨isStraight_of_resolve? rooted top h.straight leads, .inr (isFile_of_resolve? leads)⟩

/-- Requests in files with straight paths lead to files with straight paths, if the aliases come
from a manifest of a project with an absolute root; only the root itself can be found otherwise, in
a tree where it is a file. So when the root is a directory, then at every moment of a lookup that
begins in a file with a straight path, the file that is searched has a straight path and so have all
files on the trail. Where there are no links, two visits on the trail are to the same file exactly
when they have the same path, and a question is refused when it looks for something that stands on
the trail for the same file, whatever the request looks like that leads there. -/
theorem lookup_keeps_paths_straight (absolute : root.isAbsolute = true)
    (built : AliasTable.ofText root manifest = .ok aliases) (tree : FileTree) :
    (∀ importer request found, importer.IsStraight →
      resolve? aliases tree importer request = some found →
      found.IsStraight ∨ found = ⟨"/"⟩ ∧ tree.isFile ⟨"/"⟩ = true) ∧
    (tree.isFile ⟨"/"⟩ = false → ∀ q : Query, q.file.IsStraight →
      (∀ t p, (ofTree aliases tree).Moment ⟨[], q⟩ t p →
        p.IsStraight ∧ ∀ v ∈ t, v.file.IsStraight) ∧
      (tree.LinkFree →
        (∀ t p, (ofTree aliases tree).Moment ⟨[], q⟩ t p → ∀ v ∈ t, ∀ w ∈ t,
          (tree.canonicalize? v.file = tree.canonicalize? w.file ↔ v.file = w.file)) ∧
        ∀ d v, (ofTree aliases tree).LeadsTo ⟨[], q⟩ d →
          (ofTree aliases tree).visit? d.query = some v →
          (∃ w ∈ d.trail, w.sought = v.sought ∧
            tree.canonicalize? w.file = tree.canonicalize? v.file) →
          (ofTree aliases tree).enter? d.trail d.query = none)) := by
  have rooted := AliasTable.isRooted_of_ofText absolute built
  refine ⟨fun importer request found => isStraight_or_of_resolve? rooted, fun top q straight => ?_⟩
  have sound : Call.Sound q.file ⟨[], q⟩ := ⟨.nil, rfl⟩
  have handed (p : Path) (request : String) (target : Path) (h : tree.Meets q.file p) :
      (ofTree aliases tree).target? p request = some target → tree.Meets q.file target :=
    meets_of_target? rooted top h
  have met {t : Trail} {p : Path} (moment : (ofTree aliases tree).Moment ⟨[], q⟩ t p) :
      tree.Meets q.file p ∧ ∀ v ∈ t, tree.Meets q.file v.file :=
    moment.files sound ⟨straight, .inl rfl⟩ handed fun v hv => nomatch hv
  refine ⟨fun t p moment => ?_, fun linkFree => ⟨fun t p moment v hv w hw => ?_, ?_⟩⟩
  · obtain ⟨here, on⟩ := met moment
    exact ⟨here.straight, fun v hv => (on v hv).straight⟩
  · obtain ⟨-, on⟩ := met moment
    exact linkFree.canonicalize?_inj (on v hv) (on w hw)
  · rintro d v leads looks ⟨w, hw, sought, place⟩
    obtain ⟨here, on⟩ := met (.called leads)
    have file : w.file = v.file :=
      (linkFree.canonicalize?_inj (on w hw) (file_of_visit? looks here handed)).1 place
    rw [enter?_eq_none_iff (sound_of_leadsTo sound leads)]
    exact ⟨v, looks, .inl ⟨w, hw, Visit.same_iff.2 ⟨by rw [file], sought⟩⟩⟩

section Ring

/-- The texts of two modules that hand a name on to each other. The first one asks by way of an
alias, the second one asks for itself. -/
def ringTexts : List (String × String) :=
  [("a.ts", "export \x7b x \x7d from '@/b'"), ("b.ts", "export \x7b x \x7d from './b'")]

/-- A manifest with an alias for the root. -/
def ringManifest : String :=
  "\x7b\x22compilerOptions\x22:\x7b\x22paths\x22:\x7b\x22@/*\x22:[\x22./*\x22]\x7d\x7d\x7d"

/-- The module that asks by way of an alias. -/
def aliasModule : Module :=
  ⟨[.exportNames (some "@/b") [⟨"x", "x"⟩]]⟩

private def neighbourModule : Module :=
  ⟨[.exportNames (some "./b") [⟨"x", "x"⟩]]⟩

private theorem ofText_ringManifest :
    AliasTable.ofText ⟨"/"⟩ ringManifest = .ok ⟨[⟨"@", ⟨"/"⟩⟩]⟩ := by
  have plain : Json.strip ringManifest.toList = ringManifest.toList := rfl
  have tokens : Json.tokens ringManifest.toList =
      some (AliasTable.oneAliasTokens "@/*" "./*") := by
    simp [ringManifest, AliasTable.oneAliasTokens, Json.tokens, Json.tokens_string, Json.isSpace,
      Json.markToken?, Json.cutString]
  rw [AliasTable.ofText_of_oneAliasTokens plain tokens]
  exact congrArg Except.ok rfl

private theorem readModule_ringTexts :
    (FileTree.ofTexts ringTexts).readModule ⟨"/a.ts"⟩ = .ok aliasModule ∧
      (FileTree.ofTexts ringTexts).readModule ⟨"/b.ts"⟩ = .ok neighbourModule := by
  have entries : FileTree.IsTopEntry ⟨"/a.ts"⟩ "a.ts" ∧ FileTree.IsTopEntry ⟨"/b.ts"⟩ "b.ts" := by
    decide
  obtain ⟨a, b⟩ := entries
  exact ⟨FileTree.readModule_ofTexts a rfl (by decide +kernel),
    FileTree.readModule_ofTexts b rfl (by decide +kernel)⟩

private theorem resolve?_ringTexts :
    resolve? ⟨[⟨"@", ⟨"/"⟩⟩]⟩ (.ofTexts ringTexts) ⟨"/a.ts"⟩ "@/b" = some ⟨"/b.ts"⟩ ∧
      resolve? ⟨[⟨"@", ⟨"/"⟩⟩]⟩ (.ofTexts ringTexts) ⟨"/b.ts"⟩ "./b" = some ⟨"/b.ts"⟩ := by
  have reading : AliasTable.candidates ⟨[⟨"@", ⟨"/"⟩⟩]⟩ "@/b" = [⟨"/b"⟩] := by decide
  have probed : Resolve.probe? (.ofTexts ringTexts) ⟨"/b"⟩ = some ⟨"/b.ts"⟩ :=
    FileTree.probe?_ofTexts "b" (by decide)
  constructor
  · rw [resolve?, reading, List.findSome?_cons, probed]
  · have unmatched : AliasTable.candidates ⟨[⟨"@", ⟨"/"⟩⟩]⟩ "./b" = [] := by decide
    have asked : FileTree.IsStem ringTexts (Resolve.relative ⟨"/b.ts"⟩ "./b") "b" ⟨"/b.ts"⟩ := by
      decide
    exact FileTree.resolve?_ofTexts "b" unmatched rfl asked

/-- A module that was found by way of an alias asks for itself and is refused. -/
theorem lookup_keeps_paths_straight_ring :
    let aliases : AliasTable := ⟨[⟨"@", ⟨"/"⟩⟩]⟩
    let tree := FileTree.ofTexts ringTexts
    let code := ofTree aliases tree
    let start : Query := .exported ⟨"/a.ts"⟩ aliasModule "x"
    let again : Call := ⟨[⟨⟨"/b.ts"⟩, .exported "x"⟩], .imported ⟨"/b.ts"⟩ "./b" "x"⟩
    (⟨"/"⟩ : Path).isAbsolute = true ∧ AliasTable.ofText ⟨"/"⟩ ringManifest = .ok aliases ∧
      tree.isFile ⟨"/"⟩ = false ∧ Path.IsStraight ⟨"/a.ts"⟩ ∧ tree.LinkFree ∧
      tree.readModule ⟨"/a.ts"⟩ = .ok aliasModule ∧
      resolve? aliases tree ⟨"/a.ts"⟩ "@/b" = some ⟨"/b.ts"⟩ ∧
      resolve? aliases tree ⟨"/b.ts"⟩ "./b" = some ⟨"/b.ts"⟩ ∧
      Path.IsStraight ⟨"/b.ts"⟩ ∧ code.LeadsTo ⟨[], start⟩ again ∧
      code.enter? again.trail again.query = none := by
  intro aliases tree code start again
  obtain ⟨a, b⟩ := readModule_ringTexts
  obtain ⟨a_b, b_b⟩ := resolve?_ringTexts
  have absolute : (⟨"/"⟩ : Path).isAbsolute = true := by decide
  have steps : FileTree.steps ⟨"/"⟩ = [.root, .here] := rfl
  have nonempty : Path.chars ⟨"/"⟩ ≠ [] := by decide
  have top : tree.isFile ⟨"/"⟩ = false := by
    simp [FileTree.isFile, FileTree.locate, steps, nonempty, FileTree.follow, Node.get?, tree,
      FileTree.ofTexts]
  have straight : Path.IsStraight ⟨"/a.ts"⟩ := ⟨by decide, by decide⟩
  obtain ⟨resolved, kept⟩ := lookup_keeps_paths_straight absolute ofText_ringManifest tree
  let ask : Call := ⟨[], .imported ⟨"/a.ts"⟩ "@/b" "x"⟩
  let found : Call := ⟨again.trail, .exported ⟨"/b.ts"⟩ neighbourModule "x"⟩
  have looks : code.visit? ask.query = some ⟨⟨"/b.ts"⟩, .exported "x"⟩ := by
    rw [visit?]
    exact congrArg (Option.map _) a_b
  have looks_again : code.visit? again.query = some ⟨⟨"/b.ts"⟩, .exported "x"⟩ := by
    rw [visit?]
    exact congrArg (Option.map _) b_b
  have entered : code.enter? ask.trail ask.query = some again.trail := by
    rw [enter?_of_visit?_eq_some looks]
    exact if_pos (by decide)
  have opened : code.module? ⟨"/b.ts"⟩ = some neighbourModule := module?_ofTree.2 b
  have next : code.plan ask.query = .first [.exported ⟨"/b.ts"⟩ neighbourModule "x"] := by
    have target : code.target? ⟨"/a.ts"⟩ "@/b" = some ⟨"/b.ts"⟩ := a_b
    simp only [ask, plan, target, opened]
  have to_ask : ask ∈ code.calls ⟨[], start⟩ := mem_calls_of_first rfl rfl
  have to_found : found ∈ code.calls ask := mem_calls_of_first entered next
  have to_again : again ∈ code.calls found := mem_calls_of_first rfl rfl
  have leads : code.LeadsTo ⟨[], start⟩ again := .tail (.tail (.single to_ask) to_found) to_again
  have found_straight : Path.IsStraight ⟨"/b.ts"⟩ :=
    (resolved _ _ _ straight a_b).resolve_right fun root => absurd root.1 (by decide)
  obtain ⟨-, refused⟩ := (kept top start straight).2 (FileTree.linkFree_ofTexts ringTexts)
  refine ⟨absolute, ofText_ringManifest, top, straight, FileTree.linkFree_ofTexts ringTexts, a, a_b,
    b_b, found_straight, leads, refused again _ leads looks_again ?_⟩
  exact ⟨_, List.mem_singleton_self _, rfl, rfl⟩

end Ring

end Codebase

end PageIndex
