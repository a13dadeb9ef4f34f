import PageIndex.Codebase

/-!
# Spellings of one path

Two paths with the same components are spellings of one path, and what a lookup does with a path
hardly depends on the spelling: requests lead to the same files from both, and if both lead to
files they hold the same module. A spelling may lead nowhere while another one leads to a file,
because of a slash at its end, but then a lookup never gets to it.

The main statement is `coherent_ofTree`.
-/

namespace PageIndex

namespace Path

variable {p q : Path}

/-- The directory of a path does not depend on its spelling. -/
theorem parent?_congr (h : p.components = q.components) : p.parent? = q.parent? := by
  unfold parent?
  rw [h]

/-- The extension of a path does not depend on its spelling. -/
theorem extension?_congr (h : p.components = q.components) : p.extension? = q.extension? := by
  unfold extension? fileName?
  rw [h]

end Path

/-- What a request leads to does not depend on the spelling of the importing file. -/
theorem resolve?_congr {aliases : AliasTable} {tree : FileTree} {p q : Path} (request : String)
    (h : p.components = q.components) :
    resolve? aliases tree p request = resolve? aliases tree q request := by
  unfold resolve? Resolve.relative
  rw [Path.parent?_congr h]

namespace FileTree

/-- The steps of a path are its components, apart from a step at the end that stays in place. -/
theorem steps_cases (p : Path) :
    steps p = p.components ∨ steps p = p.components ++ [.here] := by
  unfold steps
  split
  · split
    · exact .inr rfl
    · exact .inl rfl
  · exact .inl rfl

/-- A step at the end that stays in place makes no difference where it succeeds. -/
theorem follow_of_follow_append_here {t : FileTree} {links : Nat} {place : List String}
    {todo : List Path.Component} {r : List String × Node}
    (h : t.follow links place (todo ++ [.here]) = .ok r) : t.follow links place todo = .ok r := by
  fun_induction follow t links place todo with
  | case1 links place hn => simp_all [follow]
  | case2 links place n hn => simp_all [follow]
  | case3 links place rest ih =>
    apply ih
    simpa only [List.cons_append, follow] using h
  | case4 links place rest ih =>
    apply ih
    simpa only [List.cons_append, follow] using h
  | case5 links place rest ih =>
    apply ih
    simpa only [List.cons_append, follow] using h
  | case6 links place s rest hn =>
    rw [List.cons_append, follow, hn] at h
    cases h
  | case7 links place s rest es hd ih =>
    apply ih
    rw [List.cons_append, follow, hd] at h
    exact h
  | case8 links place s rest content hf hr =>
    rw [List.cons_append, follow, hf] at h
    simp at h
  | case9 links place s rest content hf hr =>
    rw [List.cons_append, follow, hf] at h
    simp at h
  | case10 place s rest target hl =>
    rw [List.cons_append, follow, hl] at h
    cases h
  | case11 place s rest target hl n ih =>
    apply ih
    rw [List.cons_append, follow, hl] at h
    rw [List.append_assoc]
    exact h

/-- Spellings of one path that lead somewhere lead to the same entry. -/
theorem locate_congr {t : FileTree} {p q : Path} {r s : List String × Node}
    (hp : t.locate p = .ok r) (hq : t.locate q = .ok s) (h : p.components = q.components) :
    t.locate p = t.locate q := by
  have of_ok {p : Path} {r : List String × Node} (hp : t.locate p = .ok r) :
      t.locate p = t.follow linkLimit t.workingDir p.components := by
    unfold locate at hp ⊢
    split at hp
    · cases hp
    · next hc =>
      rw [if_neg hc]
      rcases steps_cases p with hs | hs
      · rw [hs]
      · rw [hs] at hp ⊢
        rw [hp, follow_of_follow_append_here hp]
  rw [of_ok hp, of_ok hq, h]

/-- A file can be read only where its path leads to a file. -/
theorem isFile_of_readText {t : FileTree} {p : Path} {text : String}
    (h : t.readText p = .ok text) : t.isFile p = true := by
  unfold readText at h
  unfold isFile
  split at h
  · cases h
  · next hl => rw [hl]
  · cases h

/-- A file has a module only where its path leads to a file. -/
theorem isFile_of_readModule {t : FileTree} {p : Path} {m : Script.Module}
    (h : t.readModule p = .ok m) : t.isFile p = true := by
  unfold readModule at h
  cases hr : t.readText p with
  | error e => simp [hr] at h
  | ok text => exact isFile_of_readText hr

/-- The module of a file whose text is known. -/
theorem readModule_of_readText {t : FileTree} {p : Path} {text : String}
    {dialect : Script.Dialect} {m : Script.Module} (ht : t.readText p = .ok text)
    (hd : Script.Dialect.ofPath p = dialect) (hm : Script.Module.parse? dialect text = some m) :
    t.readModule p = .ok m := by
  unfold readModule Script.Module.ofText
  rw [ht, hd]
  simp only [hm]

/-- Spellings of one path that lead to a file hold the same module. -/
theorem readModule_congr {t : FileTree} {p q : Path} (hp : t.isFile p = true)
    (hq : t.isFile q = true) (h : p.components = q.components) :
    (t.readModule p).toOption = (t.readModule q).toOption := by
  have ok_of_isFile {p : Path} (hp : t.isFile p = true) : ∃ r, t.locate p = .ok r := by
    unfold isFile at hp
    cases hl : t.locate p with
    | ok r => exact ⟨r, rfl⟩
    | error e => simp [hl] at hp
  obtain ⟨r, hr⟩ := ok_of_isFile hp
  obtain ⟨s, hs⟩ := ok_of_isFile hq
  have ht : t.readText p = t.readText q := by
    unfold readText
    rw [locate_congr hr hs h]
  have hd : Script.Dialect.ofPath p = Script.Dialect.ofPath q := by
    unfold Script.Dialect.ofPath
    rw [Path.extension?_congr h]
  unfold readModule Script.Module.ofText
  rw [ht, hd]

end FileTree

namespace Resolve

/-- What is found for one reading of a request is a file. -/
theorem isFile_of_probe? {tree : FileTree} {p found : Path} (h : probe? tree p = some found) :
    tree.isFile found = true := by
  have of_findSome? {l : List String} {f : String → Path}
      (hf : (l.findSome? fun x => if tree.isFile (f x) = true then some (f x) else none) =
        some found) : tree.isFile found = true := by
    obtain ⟨x, -, hx⟩ := List.exists_of_findSome?_eq_some hf
    obtain ⟨hi, he⟩ := Option.ite_none_right_eq_some.1 hx
    cases he
    exact hi
  unfold probe? at h
  split at h
  · next hi =>
    cases h
    exact hi
  · split at h
    · next q hq =>
      cases h
      exact of_findSome? hq
    · exact of_findSome? h

end Resolve

/-- What a request leads to is a file. -/
theorem isFile_of_resolve? {aliases : AliasTable} {tree : FileTree} {importer found : Path}
    {request : String} (h : resolve? aliases tree importer request = some found) :
    tree.isFile found = true := by
  unfold resolve? at h
  split at h
  · next p hp =>
    cases h
    obtain ⟨c, -, hc⟩ := List.exists_of_findSome?_eq_some hp
    exact Resolve.isFile_of_probe? hc
  · obtain ⟨-, hr⟩ := Option.ite_none_right_eq_some.1 h
    exact Resolve.isFile_of_probe? hr

namespace Codebase

/-- Whether a lookup can get to a file: it holds a module, or a request leads to it. -/
def Holds (code : Codebase) (p : Path) : Prop :=
  (∃ m, code.module? p = some m) ∨ ∃ importer request, code.target? importer request = some p

/-- A codebase in which the spelling of a path makes no difference. -/
structure Coherent (code : Codebase) : Prop where
  target?_congr {p q : Path} (request : String) :
    p.components = q.components → code.target? p request = code.target? q request
  module?_congr {p q : Path} :
    code.Holds p → code.Holds q → p.components = q.components →
      code.module? p = code.module? q

/-- In the codebase of a tree of files the spelling of a path makes no difference. -/
theorem coherent_ofTree (aliases : AliasTable) (tree : FileTree) :
    (ofTree aliases tree).Coherent where
  target?_congr request h := resolve?_congr request h
  module?_congr {p q} hp hq h := by
    have isFile_of_holds {p : Path} (hp : (ofTree aliases tree).Holds p) :
        tree.isFile p = true := by
      rcases hp with ⟨m, hm⟩ | ⟨importer, request, ht⟩
      · exact FileTree.isFile_of_readModule (module?_ofTree.1 hm)
      · exact isFile_of_resolve? ht
    exact FileTree.readModule_congr (isFile_of_holds hp) (isFile_of_holds hq) h

end Codebase

end PageIndex
