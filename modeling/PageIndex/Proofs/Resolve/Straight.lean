import PageIndex.Proofs.Alias.Directory
import PageIndex.Proofs.Resolve.Search

/-!
# Requests lead to straight paths

The directories of aliases and the relative readings are normal forms of absolute paths, and what is
tried for a reading has a name or an extension more at its end. So a file with a straight path asks
for files with straight paths, whatever its requests are. The main statement is
`isStraight_of_resolve?`.
-/

namespace PageIndex

namespace Resolve

/-- The relative reading of a request in a file with a straight path is rooted. -/
theorem isRooted_relative {importer : Path} (h : importer.IsStraight) (request : String) :
    (relative importer request).IsRooted := by
  obtain ⟨d, parent, absolute⟩ := h.exists_parent?
  rw [relative, parent, Option.getD_some]
  exact Path.isRooted_clean (Path.isAbsolute_join absolute _)

private theorem long_extension {ext : String} (h : ext ∈ sourceExtensions) :
    3 ≤ ("." ++ ext).toList.length ∧ '/' ∉ ("." ++ ext).toList ∧
      3 ≤ ("index." ++ ext).toList.length ∧ '/' ∉ ("index." ++ ext).toList := by
  simp only [sourceExtensions, List.mem_cons, List.not_mem_nil, or_false] at h
  rcases h with rfl | rfl | rfl | rfl | rfl | rfl | rfl | rfl <;> decide

/-- What is tried for a rooted reading is the reading itself or has a straight path. -/
theorem eq_or_isStraight_of_mem_probes {c p : Path} (h : c.IsRooted) (hp : p ∈ probes c) :
    p = c ∨ p.IsStraight := by
  rw [probes, List.cons_append, List.mem_cons, List.mem_append, indexFiles, List.map_map] at hp
  rcases hp with rfl | hp | hp
  · exact .inl rfl
  · obtain ⟨ext, known, rfl⟩ := List.mem_map.1 hp
    obtain ⟨long, alone, -⟩ := long_extension known
    exact .inr (h.withSuffix long alone)
  · obtain ⟨ext, known, rfl⟩ := List.mem_map.1 hp
    obtain ⟨-, -, long, alone⟩ := long_extension known
    exact .inr (h.child (Path.isEntryName_of_length long alone))

end Resolve

/-- A file with a straight path asks for files with straight paths when the aliases have rooted
directories, unless the root itself is a file. -/
theorem isStraight_or_of_resolve? {aliases : AliasTable} {tree : FileTree} {importer found : Path}
    {request : String} (rooted : aliases.IsRooted) (straight : importer.IsStraight)
    (h : resolve? aliases tree importer request = some found) :
    found.IsStraight ∨ found = ⟨"/"⟩ ∧ tree.isFile ⟨"/"⟩ = true := by
  rw [resolve?_eq_find?] at h
  obtain ⟨c, hc, hp⟩ := List.mem_flatMap.1 (List.mem_of_find?_eq_some h)
  have reading : c.IsRooted := by
    rcases List.mem_append.1 hc with hc | hc
    · exact rooted.candidates hc
    · split at hc
      · rw [List.mem_singleton.1 hc]
        exact Resolve.isRooted_relative straight request
      · cases hc
  rcases Resolve.eq_or_isStraight_of_mem_probes reading hp with rfl | direct
  · rcases Path.isRooted_iff.1 reading with direct | rfl
    · exact .inl direct
    · exact .inr ⟨rfl, List.find?_some h⟩
  · exact .inl direct

/-- A file with a straight path asks for files with straight paths when the aliases have rooted
directories and the root itself is no file. -/
theorem isStraight_of_resolve? {aliases : AliasTable} {tree : FileTree} {importer found : Path}
    {request : String} (rooted : aliases.IsRooted) (top : tree.isFile ⟨"/"⟩ = false)
    (straight : importer.IsStraight)
    (h : resolve? aliases tree importer request = some found) : found.IsStraight := by
  rcases isStraight_or_of_resolve? rooted straight h with direct | ⟨-, file⟩
  · exact direct
  · rw [file] at top
    cases top

end PageIndex
