import PageIndex.Proofs.FileTree.Texts
import PageIndex.Proofs.Path.Straight

/-!
# Trees without links

Without links, a straight path says where it leads to. So a file has one straight path there, which
is its real path. The main statement is `LinkFree.eq_of_canonicalize?_eq`.
-/

namespace PageIndex

namespace FileTree

/-- Whether there is no link in a tree. -/
def LinkFree (t : FileTree) : Prop :=
  ∀ names target, t.top.get? names ≠ some (.link target)

variable {t : FileTree} {p q r : Path}

/-- Without links, names lead to the place that they say. -/
theorem LinkFree.eq_of_follow (h : t.LinkFree) {links : Nat} {place names reached : List String}
    {node : Node} (hf : t.follow links place (names.map .name) = .ok (reached, node)) :
    reached = place ++ names := by
  induction names generalizing place with
  | nil =>
    rw [List.map_nil, follow] at hf
    split at hf
    · cases hf
    · cases hf
      rw [List.append_nil]
  | cons name rest ih =>
    rw [List.map_cons, follow] at hf
    split at hf
    · cases hf
    · rw [ih hf, List.append_assoc, List.singleton_append]
    · cases rest with
      | nil =>
        cases hf
        rfl
      | cons next more => cases hf
    · next target link => exact absurd link (h _ target)

/-- Without links, a straight path that leads somewhere is the real path of what it leads to. -/
theorem LinkFree.eq_of_canonicalize? (h : t.LinkFree) (straight : p.IsStraight)
    (hc : t.canonicalize? p = some r) : r = p := by
  obtain ⟨names, -, named, rfl⟩ := Path.isStraight_iff_pathOf.1 straight
  have found : ∃ reached node,
      t.locate (pathOf names) = .ok (reached, node) ∧ r = pathOf reached := by
    rw [canonicalize?] at hc
    split at hc
    · next reached node located =>
      cases hc
      exact ⟨reached, node, located, rfl⟩
    · cases hc
  obtain ⟨reached, node, located, rfl⟩ := found
  have walked : t.follow linkLimit t.workingDir (.root :: names.map .name) =
      .ok (reached, node) := by
    rw [locate] at located
    split at located
    · cases located
    · rw [← Path.components_pathOf named]
      rcases steps_cases (pathOf names) with same | more
      · rwa [same] at located
      · rw [more] at located
        exact follow_of_follow_append_here located
  rw [follow] at walked
  rw [h.eq_of_follow walked, List.nil_append]

/-- A path that leads to a file leads somewhere. -/
theorem exists_canonicalize?_of_isFile (h : t.isFile p = true) :
    ∃ r, t.canonicalize? p = some r := by
  rw [isFile] at h
  split at h
  · next place content located => exact ⟨pathOf place, by rw [canonicalize?, located]⟩
  · cases h

/-- Without links, a file has one straight path. -/
theorem LinkFree.eq_of_canonicalize?_eq (h : t.LinkFree) (hp : p.IsStraight) (hq : q.IsStraight)
    (file : t.isFile p = true) (same : t.canonicalize? p = t.canonicalize? q) : p = q := by
  obtain ⟨r, hr⟩ := exists_canonicalize?_of_isFile file
  have hr' : t.canonicalize? q = some r := same ▸ hr
  rw [← h.eq_of_canonicalize? hp hr, ← h.eq_of_canonicalize? hq hr']

/-- There is no link among files that stand next to each other. -/
theorem linkFree_ofTexts (texts : List (String × String)) : (ofTexts texts).LinkFree := by
  intro names target found
  have files : (ofTexts texts).top =
      .dir ((texts.map fun t => (t.1, t.2.toUTF8)).map fun f => (f.1, .file f.2)) := by
    rw [List.map_map]
    rfl
  rw [files] at found
  rcases Node.get?_of_files _ found with ⟨-, entries, link⟩ | ⟨name, content, -, link, -⟩
  · cases link
  · cases link

end FileTree

end PageIndex
