import Mathlib.Data.List.Nodup
import PageIndex.Page.Walk
import PageIndex.Proofs.FileTree.Contents
import PageIndex.Proofs.FileTree.Distinct

/-!
# The pages of trees with the same paths

Page files are told by their paths. The main statement is `collectPages_eq`: trees with the same
paths have the same pages in the same order, whatever their files hold and in whatever order their
entries stand.
-/

namespace PageIndex

namespace Node

/-- Pages in the order of the names under which they were found do not depend on the order in which
they were found. -/
theorem inNameOrder_congr {found found' : List (String × List PageFile)}
    (once : (Members.names found).Nodup) (once' : (Members.names found').Nodup)
    (h : ∀ name, found'.lookup name = found.lookup name) :
    inNameOrder found' = inNameOrder found := by
  have perm : found'.Perm found := by
    rw [List.perm_ext_iff_of_nodup (once'.of_map _) (once.of_map _)]
    rintro ⟨name, pages⟩
    rw [← Members.lookup_eq_some_iff once', ← Members.lookup_eq_some_iff once, h]
  let order : String × List PageFile → String × List PageFile → Bool := fun a b =>
    Text.before a.1.toList b.1.toList
  have trans (a b c : String × List PageFile) (hab : order a b = true) (hbc : order b c = true) :
      order a c = true := Text.before_trans hab hbc
  have total (a b : String × List PageFile) : (order a b || order b a) = true := by
    simpa [order] using Text.before_total a.1.toList b.1.toList
  have sorted (l : List (String × List PageFile)) :
      (l.mergeSort order).Pairwise fun a b => order a b = true :=
    List.pairwise_mergeSort trans total l
  have same : found'.mergeSort order = found.mergeSort order := by
    refine List.Perm.eq_of_pairwise ?_ (sorted found') (sorted found)
      (((List.mergeSort_perm found' order).trans perm).trans (List.mergeSort_perm found order).symm)
    rintro ⟨name, pages⟩ ⟨name', pages'⟩ ha hb hab hba
    -- Entries of one name are one entry, because each name stands once.
    obtain rfl : name = name' := String.toList_inj.1 (Text.before_antisymm hab hba)
    rw [List.mem_mergeSort, perm.mem_iff, ← Members.lookup_eq_some_iff once] at ha
    rw [List.mem_mergeSort, ← Members.lookup_eq_some_iff once, ha] at hb
    cases hb
    rfl
  exact congrArg (List.flatMap (·.2)) same

variable {changed : Set (List String)} {place : List String} {n n' : Node}
  {entries entries' : List (String × Node)}

private theorem names_pagesOf (convention : Convention) (dirs : List String) (path : Path)
    (entries : List (String × Node)) :
    Members.names (pagesOf convention dirs path entries) = Members.names entries := by
  induction entries with
  | nil => rfl
  | cons e rest ih =>
    rw [pagesOf]
    exact congrArg (e.1 :: ·) ih

private theorem lookup_pagesOf (convention : Convention) (dirs : List String) (path : Path)
    (entries : List (String × Node)) (name : String) :
    (pagesOf convention dirs path entries).lookup name =
      (entries.lookup name).map (pagesAt convention dirs name (path.child name)) := by
  induction entries with
  | nil => rfl
  | cons e rest ih =>
    rw [pagesOf, List.lookup_cons, List.lookup_cons, ih]
    by_cases hk : name = e.1
    · subst hk
      simp
    · have other : (name == e.1) = false := by simpa using hk
      simp only [other]

private theorem inNameOrder_pagesOf_congr (once : (Members.names entries).Nodup)
    (once' : (Members.names entries').Nodup)
    (h : (Node.dir entries).AgreesOutside changed place (.dir entries'))
    {convention : Convention} {dirs : List String} {path : Path}
    (same : ∀ name c c', entries.lookup name = some c → entries'.lookup name = some c' →
      c.AgreesOutside changed (place ++ [name]) c' →
      pagesAt convention dirs name (path.child name) c' =
        pagesAt convention dirs name (path.child name) c) :
    inNameOrder (pagesOf convention dirs path entries') =
      inNameOrder (pagesOf convention dirs path entries) := by
  refine inNameOrder_congr ?_ ?_ fun name => ?_
  · rw [names_pagesOf]
    exact once
  · rw [names_pagesOf]
    exact once'
  · rw [lookup_pagesOf, lookup_pagesOf]
    have both := h.lookup name
    generalize hc : entries.lookup name = found at both
    generalize hc' : entries'.lookup name = found' at both
    cases both with
    | none => rfl
    | @some c c' agree => rw [Option.map_some, Option.map_some, same name c c' hc hc' agree]

/-- The pages at an entry are the same at one that agrees with it. -/
private theorem Distinct.pagesAt_eq (d : n.Distinct) (d' : n'.Distinct)
    (h : n.AgreesOutside changed place n') (convention : Convention) (dirs : List String)
    (name : String) (path : Path) :
    pagesAt convention dirs name path n' = pagesAt convention dirs name path n := by
  induction d generalizing n' place dirs name path with
  | file content =>
    cases h.toMatches
    rfl
  | link target =>
    cases h.toMatches
    rfl
  | @dir entries once below ih =>
    cases h.toMatches
    cases d' with
    | dir once' below' =>
      simp only [pagesAt]
      rw [inNameOrder_pagesOf_congr once once' h fun name c c' hc hc' agree =>
        ih name c (Members.mem_of_lookup hc) (below' name c' (Members.mem_of_lookup hc')) agree
          (dirs ++ [_]) name (path.child name)]

/-- The pages of the entries of a directory are the same in one that agrees with it. -/
private theorem Distinct.inNameOrder_pagesOf_eq (d : (Node.dir entries).Distinct)
    (d' : (Node.dir entries').Distinct)
    (h : (Node.dir entries).AgreesOutside changed place (.dir entries'))
    (convention : Convention) (dirs : List String) (path : Path) :
    inNameOrder (pagesOf convention dirs path entries') =
      inNameOrder (pagesOf convention dirs path entries) := by
  cases d with
  | dir once below =>
    cases d' with
    | dir once' below' =>
      exact inNameOrder_pagesOf_congr once once' h fun name c c' hc hc' agree =>
        (below name c (Members.mem_of_lookup hc)).pagesAt_eq
          (below' name c' (Members.mem_of_lookup hc')) agree convention dirs name (path.child name)

end Node

/-- The pages below a directory are the same in trees that agree. -/
theorem FileTree.AgreesOutside.collectPages_eq {changed : Set (List String)} {t t' : FileTree}
    (h : t.AgreesOutside changed t') (d : t.Distinct) (d' : t'.Distinct) (root : Path)
    (convention : Convention) :
    t'.collectPages root convention = t.collectPages root convention := by
  have alike := h.locate root
  unfold collectPages
  generalize hl : t.locate root = reached at alike
  generalize hl' : t'.locate root = reached' at alike
  cases alike with
  | error e => rfl
  | @ok place node node' both =>
    cases both with
    | file same => rfl
    | link target => rfl
    | dir entries entries' =>
      have there := get?_of_locate hl
      have there' := get?_of_locate hl'
      have agree := h.top.get? there there'
      have distinct := Node.Distinct.get? d there
      have distinct' := Node.Distinct.get? d' there'
      exact distinct.inNameOrder_pagesOf_eq distinct' agree convention [] root

end PageIndex
