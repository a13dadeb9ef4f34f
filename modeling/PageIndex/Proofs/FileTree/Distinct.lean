import Mathlib.Data.List.Nodup
import PageIndex.Proofs.FileTree.Throughout

/-!
# Each name once

In a file system a directory has no two entries of one name. The trees that file operations make
from the empty one are of this kind, because each operation keeps it (`Distinct.write`,
`Distinct.makeDir`, `Distinct.makeLink`, `Distinct.remove?`). What stands in such a tree is known
from where names lead, whatever the order of its entries.
-/

namespace PageIndex

namespace Node

/-- Whether each name stands once in each directory at and below an entry. -/
inductive Distinct : Node → Prop where
  | file (content : ByteArray) : Distinct (.file content)
  | link (target : Path) : Distinct (.link target)
  | dir {entries : List (String × Node)} (once : (Members.names entries).Nodup)
    (below : ∀ name node, (name, node) ∈ entries → Distinct node) : Distinct (.dir entries)

/-- A file has no entries. -/
@[simp] theorem distinct_file (content : ByteArray) : (Node.file content).Distinct :=
  .file content

/-- A directory is distinct when its names and its entries are. -/
@[simp] theorem distinct_dir_iff {entries : List (String × Node)} :
    (Node.dir entries).Distinct ↔
      (Members.names entries).Nodup ∧ ∀ e ∈ entries, e.2.Distinct := by
  constructor
  · rintro (_ | _ | ⟨once, below⟩)
    exact ⟨once, fun e he => below e.1 e.2 he⟩
  · rintro ⟨once, below⟩
    exact .dir once fun name node h => below (name, node) h

variable {n new c : Node} {names : List String}

/-- Each name stands once when no directory has a name twice. -/
theorem distinct_iff_throughout : n.Distinct ↔ n.Throughout List.Nodup := by
  constructor
  · intro h
    induction h with
    | file content => exact .file content
    | link target => exact .link target
    | dir once _ ih => exact .dir once fun e he => ih e.1 e.2 he
  · intro h
    induction h with
    | file content => exact .file content
    | link target => exact .link target
    | dir once _ ih => exact .dir once fun name node he => ih (name, node) he

/-- Names stay different when some are left out and when a new one is added. -/
theorem isHereditary_nodup : IsHereditary List.Nodup fun _ => True where
  empty := List.nodup_nil
  fewer := List.Nodup.sublist
  further once _ fresh := List.concat_eq_append ▸ List.Nodup.concat fresh once

namespace Distinct

/-- What names reach in a distinct directory is distinct. -/
theorem get? (h : n.Distinct) (hc : n.get? names = some c) : c.Distinct :=
  distinct_iff_throughout.2 ((distinct_iff_throughout.1 h).get? hc)

/-- Putting an entry into a tree leaves each name once. -/
theorem put (h : n.Distinct) (hnew : new.Distinct) (names : List String) :
    (Node.put new names n).Distinct :=
  distinct_iff_throughout.2 ((distinct_iff_throughout.1 h).put isHereditary_nodup
    (distinct_iff_throughout.1 hnew) fun _ _ => trivial)

/-- Putting a directory into a tree leaves each name once. -/
theorem putDir (h : n.Distinct) (names : List String) : (n.putDir names).Distinct :=
  distinct_iff_throughout.2 ((distinct_iff_throughout.1 h).putDir isHereditary_nodup
    fun _ _ => trivial)

/-- Erasing an entry of a tree leaves each name once. -/
theorem erase (h : n.Distinct) (names : List String) : (n.erase names).Distinct :=
  distinct_iff_throughout.2 ((distinct_iff_throughout.1 h).erase isHereditary_nodup names)

end Distinct

end Node

namespace FileTree

/-- Whether each name stands once in each directory of a tree. -/
def Distinct (t : FileTree) : Prop :=
  t.top.Distinct

variable {t t' : FileTree}

/-- The empty tree has no name twice. -/
theorem distinct_empty : empty.Distinct :=
  .dir List.nodup_nil fun _ _ h => by cases h

/-- Writing a file leaves each name once. -/
theorem Distinct.write (h : t.Distinct) (p : Path) (content : ByteArray) :
    (t.write p content).Distinct :=
  Node.Distinct.put h (.file content) _

/-- Making a directory leaves each name once. -/
theorem Distinct.makeDir (h : t.Distinct) (p : Path) : (t.makeDir p).Distinct :=
  Node.Distinct.putDir h _

/-- Making a link leaves each name once. -/
theorem Distinct.makeLink (h : t.Distinct) (p target : Path) : (t.makeLink p target).Distinct :=
  Node.Distinct.put h (.link target) _

/-- Removing an entry leaves each name once. -/
theorem Distinct.remove? (h : t.Distinct) {p : Path} (hr : t.remove? p = some t') :
    t'.Distinct := by
  simp only [FileTree.remove?] at hr
  split at hr
  · cases hr
  · cases hr
    exact Node.Distinct.erase h _

end FileTree

end PageIndex
