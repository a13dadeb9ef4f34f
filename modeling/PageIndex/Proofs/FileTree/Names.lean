import PageIndex.Proofs.FileTree.Contents
import PageIndex.Proofs.FileTree.Distinct
import PageIndex.Proofs.Path.Normal

/-!
# The names in a file tree

In a file system the name of an entry is not empty, is neither `.` nor `..`, and has no slash in it.
The trees that file operations make from the empty one are of this kind, because each operation
keeps it (`Named.write`, `Named.makeDir`, `Named.makeLink`, `Named.remove?`): names come from the
components of paths.
-/

namespace PageIndex

namespace Node

/-- Whether every name in a directory, at any depth, has a property. -/
def Named (P : String → Prop) (n : Node) : Prop :=
  n.Throughout fun names => ∀ name ∈ names, P name

variable {P : String → Prop} {n new c : Node} {names : List String}

/-- There are no names in a file. -/
@[simp] theorem named_file (content : ByteArray) : (Node.file content).Named P :=
  .file content

/-- There are no names in a link. -/
@[simp] theorem named_link (target : Path) : (Node.link target).Named P :=
  .link target

/-- The names in a directory are those of its entries and those in them. -/
@[simp] theorem named_dir_iff {entries : List (String × Node)} :
    (Node.dir entries).Named P ↔ ∀ e ∈ entries, P e.1 ∧ e.2.Named P := by
  constructor
  · rintro (_ | _ | ⟨here, below⟩)
    exact fun e he => ⟨here e.1 (List.mem_map_of_mem he), below e he⟩
  · intro each
    exact .dir (List.forall_mem_map.2 fun e he => (each e he).1) fun e he => (each e he).2

/-- A property of each name stays when some are left out and when one that has it is added. -/
theorem isHereditary_forall (P : String → Prop) :
    IsHereditary (fun names => ∀ name ∈ names, P name) P where
  empty := nofun
  fewer part each := fun name hn => each name (part.subset hn)
  further each hname _ := List.forall_mem_append.2 ⟨each, List.forall_mem_singleton.2 hname⟩

namespace Named

/-- Names that lead somewhere in a tree have the property that the names in the tree have. -/
theorem get? (h : n.Named P) (hc : n.get? names = some c) :
    (∀ name ∈ names, P name) ∧ c.Named P := by
  refine ⟨?_, Throughout.get? h hc⟩
  induction names generalizing n with
  | nil => exact nofun
  | cons name rest ih =>
    rw [Node.get?] at hc
    cases hn : n.child? name with
    | none =>
      rw [hn] at hc
      cases hc
    | some next =>
      rw [hn] at hc
      refine List.forall_mem_cons.2 ⟨?_, ih (Throughout.child? h hn) hc⟩
      cases n with
      | dir entries => exact (named_dir_iff.1 h _ (Members.mem_of_lookup hn)).1
      | _ => cases hn

/-- Putting an entry into a tree adds the names that lead to it. -/
theorem put (h : n.Named P) (hnew : new.Named P) (hnames : ∀ name ∈ names, P name) :
    (Node.put new names n).Named P :=
  Throughout.put (isHereditary_forall P) h hnew hnames

/-- Putting a directory into a tree adds the names that lead to it. -/
theorem putDir (h : n.Named P) (hnames : ∀ name ∈ names, P name) : (n.putDir names).Named P :=
  Throughout.putDir (isHereditary_forall P) h hnames

/-- Erasing an entry of a tree adds no names. -/
theorem erase (h : n.Named P) (names : List String) : (n.erase names).Named P :=
  Throughout.erase (isHereditary_forall P) h names

end Named

end Node

/-- The names in a path are names of entries. -/
theorem Path.isEntryName_of_mem_components {p : Path} {s : String}
    (h : Component.name s ∈ p.components) : IsEntryName s := by
  have inner {piece : List Char} (hp : piece ∈ p.pieces) (hc : inner? piece = some (.name s)) :
      IsEntryName s := by
    rcases inner?_cases (Text.notMem_of_mem_splitOn hp) hc with up | ⟨t, named, same⟩
    · cases up
    · cases same
      exact named
  rw [components] at h
  split at h
  · cases h
  · next piece rest parts =>
    rcases List.mem_append.1 h with first | later
    · have hf := Option.mem_toList.1 first
      rw [first?] at hf
      split at hf
      · cases hf
      · split at hf
        · cases hf
        · exact inner (parts ▸ List.mem_cons_self) hf
    · obtain ⟨other, ho, hc⟩ := List.mem_filterMap.1 later
      exact inner (parts ▸ List.mem_cons_of_mem piece ho) hc

namespace FileTree

/-- Whether all names in a file system are names of entries. -/
structure Named (t : FileTree) : Prop where
  top : t.top.Named Path.IsEntryName
  workingDir : ∀ name ∈ t.workingDir, Path.IsEntryName name

variable {t t' : FileTree}

/-- There are no names in the empty tree. -/
theorem named_empty : empty.Named :=
  ⟨Node.named_dir_iff.2 nofun, nofun⟩

namespace Named

private theorem placeOf (h : t.Named) {reversed : List Path.Component}
    (names : ∀ s, Path.Component.name s ∈ reversed → Path.IsEntryName s) :
    ∀ name ∈ t.placeOf reversed, Path.IsEntryName name := by
  induction reversed with
  | nil => exact h.workingDir
  | cons c rest ih =>
    specialize ih fun s hs => names s (List.mem_cons_of_mem c hs)
    cases c with
    | root => exact nofun
    | here => exact ih
    | up => exact fun name hn => ih name (List.dropLast_subset _ hn)
    | name s =>
      have last : Path.IsEntryName s := names s List.mem_cons_self
      rw [FileTree.placeOf]
      split
      · next place entries reached =>
        have led := (h.top.get? (get?_of_follow reached)).1
        exact List.forall_mem_append.2 ⟨led, List.forall_mem_singleton.2 last⟩
      · exact List.forall_mem_append.2 ⟨ih, List.forall_mem_singleton.2 last⟩

private theorem placeOf_components (h : t.Named) (p : Path) :
    ∀ name ∈ t.placeOf p.components.reverse, Path.IsEntryName name :=
  h.placeOf fun _ hs => Path.isEntryName_of_mem_components (List.mem_reverse.1 hs)

/-- Writing a file adds names of entries only. -/
theorem write (h : t.Named) (p : Path) (content : ByteArray) : (t.write p content).Named := by
  refine ⟨h.top.put (.file content) ?_, h.workingDir⟩
  split
  · next names _ located => exact (h.top.get? (get?_of_locate located)).1
  · exact h.placeOf_components p

/-- Making a directory adds names of entries only. -/
theorem makeDir (h : t.Named) (p : Path) : (t.makeDir p).Named := by
  refine ⟨h.top.putDir ?_, h.workingDir⟩
  split
  · next names _ located => exact (h.top.get? (get?_of_locate located)).1
  · exact h.placeOf_components p

/-- Making a link adds names of entries only. -/
theorem makeLink (h : t.Named) (p target : Path) : (t.makeLink p target).Named :=
  ⟨h.top.put (.link target) (h.placeOf_components p), h.workingDir⟩

/-- Removing an entry adds no names. -/
theorem remove? (h : t.Named) {p : Path} (hr : t.remove? p = some t') : t'.Named := by
  simp only [FileTree.remove?] at hr
  split at hr
  · cases hr
  · cases hr
    exact ⟨h.top.erase _, h.workingDir⟩

end Named

end FileTree

end PageIndex
