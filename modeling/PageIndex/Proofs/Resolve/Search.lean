import Mathlib.Data.List.Basic
import PageIndex.Resolve

/-!
# The search for a requested file

A request is read in several ways, and each reading is tried as several paths. All of these stand
in one list, and the file that the request stands for is the first one in it. The main statement
is `resolve?_first_hit`, which also says what follows for aliases, for files that are added, and for
requests that name packages.
-/

namespace PageIndex

/-- An entry gives a path to the requests that start with its key. -/
theorem AliasEntry.isSome_candidate?_iff {e : AliasEntry} {request : String} :
    (e.candidate? request).isSome = true ↔ e.key.toList <+: request.toList := by
  rw [candidate?, Option.isSome_map, Option.isSome_iff_exists]
  simp only [Text.dropStart?_eq_some_iff]
  exact ⟨fun ⟨rest, h⟩ => ⟨rest, h.symm⟩, fun ⟨rest, h⟩ => ⟨rest, h.symm⟩⟩

namespace Resolve

variable (aliases : AliasTable) (importer : Path) (request : String)

/-- The readings of a request: those of the matching aliases, in table order, and then the relative
one, if the request starts with a point. -/
def readings : List Path :=
  aliases.candidates request ++
    if request.toList.head? = some '.' then [relative importer request] else []

/-- The paths at which a requested file may be, in the order in which they are tried. -/
def searched : List Path :=
  (readings aliases importer request).flatMap probes

/-- The paths of one reading are tried one after the other. -/
theorem probe?_eq_find? (tree : FileTree) (p : Path) :
    probe? tree p = (probes p).find? tree.isFile := by
  have each (l : List String) (f : String → Path) :
      (l.findSome? fun x => if tree.isFile (f x) = true then some (f x) else none) =
        (l.map f).find? tree.isFile := by
    induction l with
    | nil => rfl
    | cons x rest ih =>
      rw [List.findSome?_cons, List.map_cons, List.find?_cons, ih]
      cases tree.isFile (f x) <;> rfl
  rw [probe?, probes, List.cons_append, List.find?_cons, List.find?_append, ← each, ← each]
  cases tree.isFile p with
  | true => rfl
  | false =>
    rw [if_neg Bool.false_ne_true]
    split
    · next q found =>
      rw [found]
      rfl
    · next missed =>
      rw [missed]
      rfl

/-- A path without a file is tried with the first extension next. -/
theorem probe?_of_extended {tree : FileTree} {p : Path} (missing : tree.isFile p = false)
    (given : tree.isFile (p.withSuffix ".ts") = true) :
    probe? tree p = some (p.withSuffix ".ts") := by
  simp [probe?, missing, sourceExtensions, given]

end Resolve

open Resolve

section Search

variable {aliases : AliasTable} {tree : FileTree} {importer : Path} {request : String}

/-- A request stands for the first file in the list of the searched paths. -/
theorem resolve?_eq_find? (aliases : AliasTable) (tree : FileTree) (importer : Path)
    (request : String) :
    resolve? aliases tree importer request =
      (searched aliases importer request).find? tree.isFile := by
  have probed : probe? tree = fun p => (probes p).find? tree.isFile :=
    funext (probe?_eq_find? tree)
  rw [resolve?, searched, readings, List.flatMap_append, List.find?_append, List.find?_flatMap,
    ← probed]
  cases (aliases.candidates request).findSome? (probe? tree) with
  | some found => rfl
  | none =>
    rw [Option.none_or]
    by_cases point : request.toList.head? = some '.'
    · simp only [if_pos point]
      rw [probed, List.flatMap_singleton]
    · simp only [if_neg point]
      rfl

/-- A request stands for a regular file. -/
theorem locate_of_resolve? {found : Path}
    (h : resolve? aliases tree importer request = some found) :
    ∃ place content, tree.locate found = .ok (place, .file content) := by
  rw [resolve?_eq_find?] at h
  have file := List.find?_some h
  rw [FileTree.isFile] at file
  split at file
  · next place content located => exact ⟨place, content, located⟩
  · cases file

/-- An alias under which there is a file goes before all later readings, whatever these are, and
aliases under which there is none do not stand in its way. -/
theorem resolve?_of_alias {before after : List AliasEntry} {e : AliasEntry} {c hit : Path}
    (entries : aliases.entries = before ++ e :: after) (reading : e.candidate? request = some c)
    (found : (probes c).find? tree.isFile = some hit)
    (missed : ∀ b ∈ before, ∀ d, b.candidate? request = some d →
      (probes d).find? tree.isFile = none) :
    resolve? aliases tree importer request = some hit := by
  let reads (b : AliasEntry) : Option Path := b.candidate? request
  have here : reads e = some c := reading
  have passedOver : (before.filterMap reads).findSome?
      (fun d => (probes d).find? tree.isFile) = none := by
    rw [List.findSome?_eq_none_iff]
    intro d hd
    obtain ⟨b, hb, given⟩ := List.mem_filterMap.1 hd
    exact missed b hb d given
  rw [resolve?_eq_find?, searched, readings, AliasTable.candidates, entries, List.filterMap_append,
    List.filterMap_cons_some here, List.append_assoc, List.cons_append, List.flatMap_append,
    List.find?_append, List.find?_flatMap, passedOver, Option.none_or, List.flatMap_cons,
    List.find?_append, found, Option.some_or]

/-- A request that starts with a point is read from the directory of its file when there is no file
under an alias. -/
theorem resolve?_of_relative (point : request.toList.head? = some '.')
    (missed : ∀ c ∈ aliases.candidates request, (probes c).find? tree.isFile = none) :
    resolve? aliases tree importer request =
      (probes (relative importer request)).find? tree.isFile := by
  have passedOver : (aliases.candidates request).findSome? (fun c => (probes c).find? tree.isFile) =
      none := List.findSome?_eq_none_iff.2 missed
  rw [resolve?_eq_find?, searched, readings, if_pos point, List.flatMap_append, List.find?_append,
    List.find?_flatMap, passedOver, Option.none_or, List.flatMap_singleton]

/-- What is found does not change when files are added, unless one of them is at a path that was
tried before. -/
theorem resolve?_of_added {tree' : FileTree}
    (kept : ∀ p ∈ searched aliases importer request,
      tree.isFile p = true → tree'.isFile p = true)
    (free : ∀ p ∈ (searched aliases importer request).takeWhile (!tree.isFile ·),
      tree'.isFile p = false) :
    resolve? aliases tree' importer request = resolve? aliases tree importer request := by
  rw [resolve?_eq_find?, resolve?_eq_find?]
  generalize searched aliases importer request = l at kept free
  -- Both searches go past the same paths, up to the first file of the smaller tree.
  induction l with
  | nil => rfl
  | cons p rest ih =>
    rw [List.find?_cons, List.find?_cons]
    cases file : tree.isFile p with
    | true => rw [kept p List.mem_cons_self file]
    | false =>
      rw [List.takeWhile_cons_of_pos (by simp [file])] at free
      rw [free p List.mem_cons_self]
      exact ih (fun q hq => kept q (List.mem_cons_of_mem p hq))
        fun q hq => free q (List.mem_cons_of_mem p hq)

/-- A request that no alias matches and that does not start with a point stands for nothing. -/
theorem resolve?_eq_none_of_package
    (unmatched : ∀ e ∈ aliases.entries, ¬ e.key.toList <+: request.toList)
    (package : request.toList.head? ≠ some '.') :
    resolve? aliases tree importer request = none := by
  have noCandidates : aliases.candidates request = [] := by
    rw [AliasTable.candidates, List.filterMap_eq_nil_iff]
    intro e he
    rw [← Option.not_isSome_iff_eq_none, AliasEntry.isSome_candidate?_iff]
    exact unmatched e he
  rw [resolve?_eq_find?, searched, readings, noCandidates, if_neg package]
  rfl

end Search

/-- A request stands for the first file in one list of paths, whatever files there are. The list has
for each alias that starts the request, in table order, and then for the relative reading, if the
request starts with a point, the path itself, the path with each extension, and each index file. So
what is found is a file. An alias with a file goes before later aliases and before the relative
reading, one without a file stands in nobody's way, files that are added elsewhere or further down
the list change nothing, and other requests stand for nothing. -/
theorem resolve?_first_hit (aliases : AliasTable) (importer : Path) (request : String) :
    (∀ tree, resolve? aliases tree importer request =
      (searched aliases importer request).find? tree.isFile) ∧
    (∀ c, probes c =
      [c, c.withSuffix ".ts", c.withSuffix ".tsx", c.withSuffix ".mts", c.withSuffix ".cts",
        c.withSuffix ".js", c.withSuffix ".jsx", c.withSuffix ".mjs", c.withSuffix ".cjs",
        c.child "index.ts", c.child "index.tsx", c.child "index.mts", c.child "index.cts",
        c.child "index.js", c.child "index.jsx", c.child "index.mjs", c.child "index.cjs"]) ∧
    (∀ e : AliasEntry,
      (e.candidate? request).isSome = true ↔ e.key.toList <+: request.toList) ∧
    (∀ tree found, resolve? aliases tree importer request = some found →
      ∃ place content, tree.locate found = .ok (place, .file content)) ∧
    (∀ tree before e after c hit, aliases.entries = before ++ e :: after →
      e.candidate? request = some c → (probes c).find? tree.isFile = some hit →
      (∀ b ∈ before, ∀ d, b.candidate? request = some d →
        (probes d).find? tree.isFile = none) →
      resolve? aliases tree importer request = some hit) ∧
    (∀ tree, request.toList.head? = some '.' →
      (∀ c ∈ aliases.candidates request, (probes c).find? tree.isFile = none) →
      resolve? aliases tree importer request =
        (probes (relative importer request)).find? tree.isFile) ∧
    (∀ tree tree' : FileTree,
      (∀ p ∈ searched aliases importer request,
        tree.isFile p = true → tree'.isFile p = true) →
      (∀ p ∈ (searched aliases importer request).takeWhile (!tree.isFile ·),
        tree'.isFile p = false) →
      resolve? aliases tree' importer request = resolve? aliases tree importer request) ∧
    ((∀ e ∈ aliases.entries, ¬ e.key.toList <+: request.toList) →
      request.toList.head? ≠ some '.' →
      ∀ tree, resolve? aliases tree importer request = none) := by
  refine ⟨fun tree => resolve?_eq_find? aliases tree importer request, fun c => rfl,
    fun e => AliasEntry.isSome_candidate?_iff, fun tree found => locate_of_resolve?, ?_, ?_, ?_, ?_⟩
  · intro tree before e after c hit entries reading found missed
    exact resolve?_of_alias entries reading found missed
  · intro tree point missed
    exact resolve?_of_relative point missed
  · intro tree tree' kept free
    exact resolve?_of_added kept free
  · intro unmatched package tree
    exact resolve?_eq_none_of_package unmatched package

end PageIndex
