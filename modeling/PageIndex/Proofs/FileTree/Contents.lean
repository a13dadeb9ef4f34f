import Mathlib.Data.List.Forall2
import Mathlib.Data.Set.Basic
import PageIndex.Codebase

/-!
# Trees with the same paths

Two trees of files may have the same directories, files and links, and differ only in what some of
their files hold and in the order of their entries. Then every path leads to the same place in both
of them. So import requests lead to the same files (`resolve?_eq`), and a file that is not one of
the changed ones holds the same module (`readModule_eq`).
-/

namespace PageIndex

namespace Node

/-- Whether two entries at a place are of one kind and say the same, except that the files at the
given places may hold something else. -/
inductive Matches (changed : Set (List String)) (place : List String) : Node → Node → Prop where
  | file {content content' : ByteArray} (h : place ∈ changed ∨ content = content') :
    Matches changed place (.file content) (.file content')
  | link (target : Path) : Matches changed place (.link target) (.link target)
  | dir (entries entries' : List (String × Node)) :
    Matches changed place (.dir entries) (.dir entries')

/-- Names reach what their ends reach from where their beginnings lead. -/
theorem get?_append (n : Node) (names more : List String) :
    n.get? (names ++ more) = (n.get? names).bind (·.get? more) := by
  induction names generalizing n with
  | nil => rfl
  | cons name rest ih =>
    rw [List.cons_append, get?, get?]
    cases n.child? name with
    | none => rfl
    | some c => exact ih c

/-- Whether the same names reach matching entries from two entries at a place. -/
def AgreesOutside (changed : Set (List String)) (place : List String) (n n' : Node) : Prop :=
  ∀ names, Option.Rel (Matches changed (place ++ names)) (n.get? names) (n'.get? names)

namespace AgreesOutside

variable {changed : Set (List String)} {place : List String} {n n' : Node}
  {entries entries' : List (String × Node)}

/-- Two entries that agree match. -/
theorem toMatches (h : n.AgreesOutside changed place n') : Matches changed place n n' := by
  have here := h []
  rw [List.append_nil] at here
  cases here with
  | some both => exact both

/-- What the same names reach from two entries that agree. -/
theorem get? {names : List String} {c c' : Node} (h : n.AgreesOutside changed place n')
    (hc : n.get? names = some c) (hc' : n'.get? names = some c') :
    c.AgreesOutside changed (place ++ names) c' := by
  intro more
  have reached := h (names ++ more)
  rw [get?_append, get?_append, hc, hc', ← List.append_assoc] at reached
  exact reached

/-- The entries of one name in two directories that agree. -/
theorem lookup (h : (Node.dir entries).AgreesOutside changed place (.dir entries'))
    (name : String) :
    Option.Rel (AgreesOutside changed (place ++ [name])) (entries.lookup name)
      (entries'.lookup name) := by
  have below (names : List String) := h (name :: names)
  simp only [Node.get?, Node.child?] at below
  cases hc : entries.lookup name <;> cases hc' : entries'.lookup name <;>
    simp only [hc, hc'] at below
  case none.none => exact .none
  case none.some c' => cases below []
  case some.none c => cases below []
  case some.some c c' =>
    refine .some fun names => ?_
    rw [← List.append_cons]
    exact below names

/-- Files agree when they hold the same or are changed. -/
theorem file {content content' : ByteArray} (h : place ∈ changed ∨ content = content') :
    (Node.file content).AgreesOutside changed place (.file content') := by
  intro names
  cases names with
  | nil =>
    rw [List.append_nil]
    exact .some (.file h)
  | cons name rest => exact .none

/-- Directories agree when they have the same names in one order and their entries agree. -/
theorem dir (h : List.Forall₂
      (fun e e' => e'.1 = e.1 ∧ e.2.AgreesOutside changed (place ++ [e.1]) e'.2)
      entries entries') :
    (Node.dir entries).AgreesOutside changed place (.dir entries') := by
  intro names
  cases names with
  | nil => exact .some (.dir entries entries')
  | cons name rest =>
    simp only [Node.get?, Node.child?]
    induction h with
    | nil => exact .none
    | @cons e e' l l' both _ ih =>
      obtain ⟨key, c⟩ := e
      obtain ⟨key', c'⟩ := e'
      obtain ⟨rfl, agree⟩ := both
      rw [List.lookup_cons, List.lookup_cons]
      by_cases hk : name = key'
      · subst hk
        simp only [beq_self_eq_true]
        rw [List.append_cons]
        exact agree rest
      · have other : (name == key') = false := by simpa using hk
        simp only [other]
        exact ih

end AgreesOutside

/-- What names reach in a directory that holds nothing but files. -/
theorem get?_of_files (files : List (String × ByteArray)) {place : List String} {node : Node}
    (h : (Node.dir (files.map fun f => (f.1, .file f.2))).get? place = some node) :
    (place = [] ∧ ∃ entries, node = .dir entries) ∨
      ∃ name content, place = [name] ∧ node = .file content ∧ files.lookup name = some content := by
  cases place with
  | nil =>
    cases h
    exact .inl ⟨rfl, _, rfl⟩
  | cons name rest =>
    right
    have found (files : List (String × ByteArray)) :
        (files.map fun f => (f.1, Node.file f.2)).lookup name =
          (files.lookup name).map Node.file := by
      induction files with
      | nil => rfl
      | cons f others ih =>
        rw [List.map_cons, List.lookup_cons, List.lookup_cons, ih]
        cases name == f.1 <;> rfl
    simp only [Node.get?, Node.child?, found] at h
    cases hc : files.lookup name with
    | none => simp [hc] at h
    | some content =>
      cases rest with
      | nil =>
        simp only [hc, Option.map_some, Node.get?, Option.some.injEq] at h
        exact ⟨name, content, rfl, h.symm, hc⟩
      | cons next others => simp [hc, Node.get?, Node.child?] at h

end Node

namespace FileTree

/-- Whether two trees of files have the same paths, and the same files hold the same except for the
files at the given places. -/
structure AgreesOutside (changed : Set (List String)) (t t' : FileTree) : Prop where
  workingDir : t'.workingDir = t.workingDir
  top : t.top.AgreesOutside changed [] t'.top

/-- Whether two ways lead to the same place, or fail alike. -/
inductive LeadAlike (changed : Set (List String)) :
    Except FileError (List String × Node) → Except FileError (List String × Node) → Prop where
  | error (e : FileError) : LeadAlike changed (.error e) (.error e)
  | ok (place : List String) {node node' : Node} (h : node.Matches changed place node') :
    LeadAlike changed (.ok (place, node)) (.ok (place, node'))

variable {changed : Set (List String)} {t t' : FileTree}

private theorem AgreesOutside.get?_eq_none (h : t.AgreesOutside changed t') {names : List String}
    (hn : t.top.get? names = none) : t'.top.get? names = none := by
  have reached := h.top names
  rw [hn] at reached
  cases hn' : t'.top.get? names with
  | none => rfl
  | some node' =>
    rw [hn'] at reached
    cases reached

private theorem AgreesOutside.get?_eq_some (h : t.AgreesOutside changed t') {names : List String}
    {node : Node} (hn : t.top.get? names = some node) :
    ∃ node', t'.top.get? names = some node' ∧ node.Matches changed names node' := by
  have reached := h.top names
  rw [hn] at reached
  cases hn' : t'.top.get? names with
  | none =>
    rw [hn'] at reached
    cases reached
  | some node' =>
    rw [hn'] at reached
    cases reached with
    | some agree => exact ⟨node', rfl, agree⟩

/-- The same steps lead to the same place in trees that agree. -/
theorem AgreesOutside.follow (h : t.AgreesOutside changed t') (links : Nat) (place : List String)
    (todo : List Path.Component) :
    LeadAlike changed (t.follow links place todo) (t'.follow links place todo) := by
  fun_induction FileTree.follow t links place todo with
  | case1 links place hn =>
    rw [FileTree.follow, h.get?_eq_none hn]
    exact .error .notFound
  | case2 links place node hn =>
    obtain ⟨node', hn', both⟩ := h.get?_eq_some hn
    rw [FileTree.follow, hn']
    exact .ok place both
  | case3 links place rest ih =>
    rw [FileTree.follow]
    exact ih
  | case4 links place rest ih =>
    rw [FileTree.follow]
    exact ih
  | case5 links place rest ih =>
    rw [FileTree.follow]
    exact ih
  | case6 links place s rest hn =>
    rw [FileTree.follow, h.get?_eq_none hn]
    exact .error .notFound
  | case7 links place s rest entries hn ih =>
    obtain ⟨node', hn', both⟩ := h.get?_eq_some hn
    rw [FileTree.follow, hn']
    cases both
    exact ih
  | case8 links place s rest content hn hr =>
    obtain ⟨node', hn', both⟩ := h.get?_eq_some hn
    rw [FileTree.follow, hn']
    cases both with
    | file same =>
      simp only [hr, if_true]
      exact .ok (place ++ [s]) (.file same)
  | case9 links place s rest content hn hr =>
    obtain ⟨node', hn', both⟩ := h.get?_eq_some hn
    rw [FileTree.follow, hn']
    cases both
    simp only [hr]
    exact .error .notDirectory
  | case10 place s rest target hn =>
    obtain ⟨node', hn', both⟩ := h.get?_eq_some hn
    rw [FileTree.follow, hn']
    cases both
    exact .error .tooManyLinks
  | case11 place s rest target hn n ih =>
    obtain ⟨node', hn', both⟩ := h.get?_eq_some hn
    rw [FileTree.follow, hn']
    cases both
    exact ih

/-- The same path leads to the same place in trees that agree. -/
theorem AgreesOutside.locate (h : t.AgreesOutside changed t') (p : Path) :
    LeadAlike changed (t.locate p) (t'.locate p) := by
  unfold FileTree.locate
  split
  · exact .error .notFound
  · rw [h.workingDir]
    exact h.follow linkLimit t.workingDir (steps p)

/-- The same paths lead to files in trees that agree. -/
theorem AgreesOutside.isFile_eq (h : t.AgreesOutside changed t') (p : Path) :
    t'.isFile p = t.isFile p := by
  have alike := h.locate p
  unfold isFile
  generalize t.locate p = reached at alike
  generalize t'.locate p = reached' at alike
  cases alike with
  | error e => rfl
  | ok place both => cases both <;> rfl

/-- A file that is not one of the changed ones has the same text in trees that agree. -/
theorem AgreesOutside.readText_eq (h : t.AgreesOutside changed t') {p : Path}
    (kept : ∀ place node, t.locate p = .ok (place, node) → place ∉ changed) :
    t'.readText p = t.readText p := by
  have alike := h.locate p
  unfold readText
  generalize t.locate p = reached at alike kept
  generalize t'.locate p = reached' at alike
  cases alike with
  | error e => rfl
  | ok place both =>
    cases both with
    | file same =>
      rcases same with moved | rfl
      · exact absurd moved (kept place _ rfl)
      · rfl
    | link target => rfl
    | dir entries entries' => rfl

/-- A file that is not one of the changed ones holds the same module in trees that agree. -/
theorem AgreesOutside.readModule_eq (h : t.AgreesOutside changed t') {p : Path}
    (kept : ∀ place node, t.locate p = .ok (place, node) → place ∉ changed) :
    t'.readModule p = t.readModule p := by
  unfold readModule
  rw [h.readText_eq kept]

/-- Where steps lead there is an entry. -/
theorem get?_of_follow {links : Nat} {start place : List String} {node : Node}
    {todo : List Path.Component} (h : t.follow links start todo = .ok (place, node)) :
    t.top.get? place = some node := by
  fun_induction FileTree.follow t links start todo with
  | case1 links start hn => cases h
  | case2 links start node' hn =>
    cases h
    exact hn
  | case3 links start rest ih => exact ih h
  | case4 links start rest ih => exact ih h
  | case5 links start rest ih => exact ih h
  | case6 links start s rest hn => cases h
  | case7 links start s rest entries hn ih => exact ih h
  | case8 links start s rest content hn hr =>
    cases h
    exact hn
  | case9 links start s rest content hn hr => cases h
  | case10 start s rest target hn => cases h
  | case11 start s rest target hn n ih => exact ih h

/-- Where a path leads there is an entry. -/
theorem get?_of_locate {p : Path} {place : List String} {node : Node}
    (h : t.locate p = .ok (place, node)) : t.top.get? place = some node := by
  unfold FileTree.locate at h
  split at h
  · cases h
  · exact get?_of_follow h

/-- The path of the root directory is the one that is written with a slash only. -/
theorem canonicalize?_root (t : FileTree) : t.canonicalize? ⟨"/"⟩ = some ⟨"/"⟩ := by
  have steps : steps ⟨"/"⟩ = [.root, .here] := rfl
  have nonempty : Path.chars ⟨"/"⟩ ≠ [] := by decide
  have top : pathOf [] = ⟨"/"⟩ := rfl
  simp [canonicalize?, locate, steps, nonempty, follow, Node.get?, top]

/-- The text of a file is the one that it was made from. -/
theorem readText_of_locate {p : Path} {place : List String} {text : String}
    (h : t.locate p = .ok (place, .file text.toUTF8)) : t.readText p = .ok text := by
  have decoded : String.fromUTF8? text.toUTF8 = some text := by
    simp [String.fromUTF8?, String.fromUTF8, text.isValidUTF8]
  unfold readText
  simp only [h, decoded]

/-- The module of a file whose text stands for the same module in every language. -/
theorem readModule_of_locate {p : Path} {place : List String} {text : String} {m : Script.Module}
    (h : t.locate p = .ok (place, .file text.toUTF8))
    (hm : ∀ dialect, Script.Module.parse? dialect text = some m) : t.readModule p = .ok m := by
  unfold readModule Script.Module.ofText
  rw [readText_of_locate h]
  simp only [hm]

end FileTree

/-- A request leads to the same file when the same paths lead to files. -/
theorem resolve?_eq {aliases : AliasTable} {t t' : FileTree}
    (h : ∀ p, t'.isFile p = t.isFile p) (importer : Path) (request : String) :
    resolve? aliases t' importer request = resolve? aliases t importer request := by
  have probed : Resolve.probe? t' = Resolve.probe? t := by
    funext p
    simp only [Resolve.probe?, h]
  unfold resolve?
  rw [probed]

end PageIndex
