import Mathlib.Data.List.Forall2
import PageIndex.Proofs.Alias.Directory
import PageIndex.Proofs.Json.Raw

/-!
# Aliases as substitutions

The aliases of a manifest are told from its text: an alias stands at the place of the first member
with its name and has the first target of the last one (`ListsAliases`). A request that starts with
the key of an alias stands for the normal form of the directory of the project, the base of the
targets, the target and what follows the key, joined at once (`Substitutes`). The main statement is
`ofText_substitutes`.
-/

namespace PageIndex

namespace AliasTable

/-! ### What a manifest gives -/

/-- Whether a pattern is written as `stem/*` or, without that ending, as `stem`. -/
def Spells (pattern stem : String) : Prop :=
  pattern = stem ++ "/*" ∨ (pattern = stem ∧ ∀ t, pattern ≠ t ++ "/*")

/-- Whether targets are seen from `baseUrl`: what the options say, or a point if it is no text. -/
def IsBaseUrl (options : Json) (baseUrl : String) : Prop :=
  options.get? "baseUrl" = some (.str baseUrl) ∨
    ((∀ s, options.get? "baseUrl" ≠ some (.str s)) ∧ baseUrl = ".")

/-- Whether `written` are the members of the paths of a manifest as its text has them: the tokens
of the text are those of a raw value with the value of the manifest, in which they stand. -/
def WritesPaths (text : String) (manifest : Json) (written : List (String × Json)) : Prop :=
  ∃ (raw options : Json.Raw) (members : List (String × Json.Raw)),
    Json.tokens (Json.strip text.toList) = some raw.tokens ∧ raw.value = manifest ∧
    raw.member? "compilerOptions" = some options ∧
    options.member? "paths" = some (.object members) ∧
    written = Json.Raw.memberValues members

/-- Whether aliases are those of the members that were written: each stands once, with the first
target that was written last under its name, and they are in the order in which their names were
written first. -/
structure ListsAliases (written : List (String × Json)) (aliases : List (String × String)) :
    Prop where
  once : (Members.names aliases).Nodup
  mem_iff : ∀ pattern target, (pattern, target) ∈ aliases ↔
    ∃ later, First (fun m => m.1 = pattern) written.reverse (pattern, .arr (.str target :: later))
  order : (Members.names aliases).Pairwise fun pattern other =>
    ∃ m, First (fun m => m.1 = pattern ∨ m.1 = other) written m ∧ m.1 = pattern

/-- Whether an entry is that of an alias: its key is the stem of the pattern, and its directory is
that of the target, seen from `base`, in normal form. -/
def IsEntryOf (base : Path) (a : String × String) (e : AliasEntry) : Prop :=
  ∃ stem directory, Spells a.1 stem ∧ Spells a.2 directory ∧
    e = ⟨stem, (base.join ⟨directory⟩).clean⟩

/-- The aliases among members, with their first targets. -/
def aliasesOf (members : List (String × Json)) : List (String × String) :=
  members.filterMap fun m => (firstTarget? m.2).map (m.1, ·)

/-- The stem of a pattern is what is left without the star. -/
theorem withoutStar_eq_iff {pattern stem : String} :
    withoutStar pattern = stem ↔ Spells pattern stem := by
  have ends (t : String) :
      Text.dropEnd? ['/', '*'] pattern.toList = some t.toList ↔ pattern = t ++ "/*" := by
    rw [Text.dropEnd?_eq_some_iff, ← String.toList_inj, String.toList_append]
    rfl
  rw [withoutStar]
  split
  · next cs cut =>
    obtain ⟨t, rfl⟩ : ∃ t : String, cs = t.toList := ⟨_, String.toList_ofList.symm⟩
    rw [String.ofList_toList]
    constructor
    · rintro rfl
      exact .inl ((ends t).1 cut)
    · rintro (written | ⟨-, starless⟩)
      · exact String.toList_inj.1 (Option.some.inj (cut.symm.trans ((ends stem).2 written)))
      · exact absurd ((ends t).1 cut) (starless t)
  · next uncut =>
    have plain (t : String) : pattern ≠ t ++ "/*" := fun written => by
      cases uncut.symm.trans ((ends t).2 written)
    exact ⟨fun same => .inr ⟨same, plain⟩, fun h => (h.resolve_left (plain stem)).1⟩

/-- A pattern spells its stem. -/
theorem spells_withoutStar (pattern : String) : Spells pattern (withoutStar pattern) :=
  withoutStar_eq_iff.1 rfl

/-- The first target of an alias is the text at the start of an array. -/
theorem firstTarget?_eq_some_iff {targets : Json} {target : String} :
    firstTarget? targets = some target ↔ ∃ later, targets = .arr (.str target :: later) := by
  constructor
  · intro h
    obtain ⟨items, listed, h⟩ := Option.bind_eq_some_iff.1 h
    obtain ⟨first, head, text⟩ := Option.bind_eq_some_iff.1 h
    obtain ⟨later, rfl⟩ := List.head?_eq_some_iff.1 head
    cases targets <;> cases listed
    cases first <;> cases text
    exact ⟨later, rfl⟩
  · rintro ⟨later, rfl⟩
    rfl

/-- The names of aliases are among those of the members, in their order. -/
theorem names_aliasesOf_sublist (members : List (String × Json)) :
    (Members.names (aliasesOf members)).Sublist (Members.names members) := by
  induction members with
  | nil => exact .slnil
  | cons m rest ih =>
    rw [aliasesOf, List.filterMap_cons]
    cases firstTarget? m.2 with
    | none => exact ih.cons _
    | some target => exact ih.cons_cons _

/-- Members that are written one after the other give the aliases of what was written. -/
theorem listsAliases_ofList (written : List (String × Json)) :
    ListsAliases written (aliasesOf (Members.ofList written)) where
  once := (names_aliasesOf_sublist _).nodup (Members.nodup_names_ofList written)
  mem_iff pattern target := by
    rw [aliasesOf, List.mem_filterMap]
    constructor
    · rintro ⟨⟨name, targets⟩, listed, given⟩
      obtain ⟨target', first, same⟩ := Option.map_eq_some_iff.1 given
      cases same
      obtain ⟨later, rfl⟩ := firstTarget?_eq_some_iff.1 first
      exact ⟨later, Members.mem_ofList_iff.1 listed⟩
    · rintro ⟨later, last⟩
      exact ⟨_, Members.mem_ofList_iff.2 last,
        Option.map_eq_some_iff.2 ⟨target, firstTarget?_eq_some_iff.2 ⟨later, rfl⟩, rfl⟩⟩
  order := (Members.pairwise_ofList written).sublist (names_aliasesOf_sublist _)

/-! ### What stands for a request -/

/-- What stands below a directory, if there is anything. -/
def below (directory : Path) (rest : List Char) : Path :=
  if rest.isEmpty then directory else directory.join (Path.ofChars rest)

/-- Whether `c` stands for a request by an alias: the request starts with the stem of the pattern,
and `c` is the normal form of what follows below the target, all joined at once. -/
def Substitutes (base : Path) (pattern target request : String) (c : Path) : Prop :=
  ∃ stem directory rest, Spells pattern stem ∧ Spells target directory ∧
    request.toList = stem.toList ++ rest ∧
    c = (below (base.join ⟨directory⟩) (rest.dropWhile (· == '/'))).clean

/-- What stands for a request by an alias, if the request starts with its stem. -/
def substitute? (base : Path) (request : String) (a : String × String) : Option Path :=
  (Text.dropStart? (withoutStar a.1).toList request.toList).map fun rest =>
    (below (base.join ⟨withoutStar a.2⟩) (rest.dropWhile (· == '/'))).clean

/-- What stands for a request. -/
theorem substitute?_eq_some_iff {base : Path} {request pattern target : String} {c : Path} :
    substitute? base request (pattern, target) = some c ↔
      Substitutes base pattern target request c := by
  rw [substitute?, Option.map_eq_some_iff]
  constructor
  · rintro ⟨rest, starts, rfl⟩
    exact ⟨_, _, rest, spells_withoutStar pattern, spells_withoutStar target,
      Text.dropStart?_eq_some_iff.1 starts, rfl⟩
  · rintro ⟨stem, directory, rest, key, place, starts, rfl⟩
    cases withoutStar_eq_iff.2 key
    cases withoutStar_eq_iff.2 place
    exact ⟨rest, Text.dropStart?_eq_some_iff.2 starts, rfl⟩

/-- An entry gives what its alias stands for: more can be joined to its directory, which is in
normal form, as well as to the target as it was written. -/
theorem candidate?_eq_substitute? (base : Path) (request : String) (a : String × String) :
    AliasEntry.candidate? ⟨withoutStar a.1, (base.join ⟨withoutStar a.2⟩).clean⟩ request =
      substitute? base request a := by
  rw [AliasEntry.candidate?, substitute?]
  congr 1
  funext rest
  dsimp only
  rw [below]
  by_cases nothing : (rest.dropWhile (· == '/')).isEmpty = true
  · rw [if_pos nothing, if_pos nothing]
  · rw [if_neg nothing, if_neg nothing, Path.clean_join]

/-- The aliases in the value of a manifest are those of its members, each with its directory in
normal form. -/
theorem entries_ofJson {root : Path} {manifest options : Json} {members : List (String × Json)}
    {baseUrl : String} (hasOptions : manifest.get? "compilerOptions" = some options)
    (hasPaths : options.get? "paths" = some (.obj members)) (seenFrom : IsBaseUrl options baseUrl) :
    (ofJson root manifest).entries = (aliasesOf members).map fun a =>
      ⟨withoutStar a.1, ((root.join ⟨baseUrl⟩).join ⟨withoutStar a.2⟩).clean⟩ := by
  have base : ((options.get? "baseUrl").bind Json.str?).getD "." = baseUrl := by
    rcases seenFrom with given | ⟨ungiven, rfl⟩
    · rw [given]
      rfl
    · cases given : (options.get? "baseUrl").bind Json.str? with
      | none => rfl
      | some s =>
        obtain ⟨v, found, text⟩ := Option.bind_eq_some_iff.1 given
        cases v <;> cases text
        exact absurd found (ungiven s)
  have paths : (options.get? "paths").bind Json.obj? = some members := by
    rw [hasPaths]
    rfl
  rw [ofJson, hasOptions]
  dsimp only
  rw [paths]
  dsimp only
  rw [base, aliasesOf, List.map_filterMap]
  congr 1
  funext m
  unfold entry?
  rw [Option.map_map]
  rfl

/-- Targets are always seen from some base. -/
theorem exists_isBaseUrl (options : Json) : ∃ baseUrl, IsBaseUrl options baseUrl := by
  by_cases given : ∃ s, options.get? "baseUrl" = some (.str s)
  · exact given.imp fun _ => .inl
  · exact ⟨".", .inr ⟨not_exists.1 given, rfl⟩⟩

/-- The paths of a manifest are written in its text. -/
theorem exists_writesPaths {text : String} {manifest options : Json}
    {paths : List (String × Json)}
    (valid : Json.parse? manifestLevels (Json.strip text.toList) = some manifest)
    (hasOptions : manifest.get? "compilerOptions" = some options)
    (hasPaths : options.get? "paths" = some (.obj paths)) :
    ∃ written, WritesPaths text manifest written ∧ Members.ofList written = paths := by
  obtain ⟨raw, lexed, plain, rfl⟩ := Json.exists_raw valid
  obtain ⟨rawOptions, writtenOptions, rfl⟩ := plain.exists_member? hasOptions
  have plainOptions := plain.member? writtenOptions
  obtain ⟨rawPaths, writtenPaths, object⟩ := plainOptions.exists_member? hasPaths
  obtain ⟨members, rfl, values⟩ := (plainOptions.member? writtenPaths).eq_object object
  exact ⟨_, ⟨raw, rawOptions, members, lexed, rfl, writtenOptions, writtenPaths, rfl⟩, values⟩

/-- A manifest whose paths are an object gives a table, for every root of a project. There is one
entry for each alias whose last value is an array that starts with a text, in the order in which
the names were written first. A request stands, in the order of the aliases, for what follows the
stem of an alias below its target, all joined at once and then brought into normal form; bringing a
directory into normal form before more is joined to it makes no difference. -/
theorem ofText_substitutes {root : Path} {text : String} {manifest options : Json}
    {paths : List (String × Json)}
    (valid : Json.parse? manifestLevels (Json.strip text.toList) = some manifest)
    (hasOptions : manifest.get? "compilerOptions" = some options)
    (hasPaths : options.get? "paths" = some (.obj paths)) :
    ∃ (written : List (String × Json)) (aliases : List (String × String)) (baseUrl : String)
      (table : AliasTable),
      WritesPaths text manifest written ∧ ListsAliases written aliases ∧
      IsBaseUrl options baseUrl ∧ ofText root text = .ok table ∧
      List.Forall₂ (IsEntryOf (root.join ⟨baseUrl⟩)) aliases table.entries ∧
      (∀ request, table.candidates request =
        aliases.filterMap (substitute? (root.join ⟨baseUrl⟩) request)) ∧
      (∀ request pattern target c,
        substitute? (root.join ⟨baseUrl⟩) request (pattern, target) = some c ↔
          Substitutes (root.join ⟨baseUrl⟩) pattern target request c) ∧
      ∀ directory more : Path, (directory.clean.join more).clean = (directory.join more).clean := by
  obtain ⟨written, writes, rfl⟩ := exists_writesPaths valid hasOptions hasPaths
  obtain ⟨baseUrl, seenFrom⟩ := exists_isBaseUrl options
  have entries := @entries_ofJson root _ _ _ _ hasOptions hasPaths seenFrom
  refine ⟨written, _, baseUrl, ofJson root manifest, writes, listsAliases_ofList written, seenFrom,
    ?_, ?_, fun request => ?_, fun _ _ _ _ => substitute?_eq_some_iff, Path.clean_join⟩
  · rw [ofText, valid]
  · rw [entries, List.forall₂_map_right_iff, List.forall₂_same]
    exact fun a _ => ⟨_, _, spells_withoutStar a.1, spells_withoutStar a.2, rfl⟩
  · rw [candidates, entries, List.filterMap_map]
    exact List.filterMap_congr fun a _ => candidate?_eq_substitute? _ request a

/-- An alias that is given twice has its last target, also below a root that is a relative path. -/
theorem ofText_substitutes_twice :
    let manifest : Json := .obj [("compilerOptions", sampleOptions)]
    let paths : List (String × Json) := [("@/*", .arr [.str "./*"]),
      ("~", .arr [.str "../lib", .int 1]), ("no", .arr [])]
    Json.parse? manifestLevels (Json.strip sampleManifest.toList) = some manifest ∧
      manifest.get? "compilerOptions" = some sampleOptions ∧
      sampleOptions.get? "paths" = some (.obj paths) ∧
      ∃ written aliases baseUrl table, WritesPaths sampleManifest manifest written ∧
        ListsAliases written aliases ∧ IsBaseUrl sampleOptions baseUrl ∧
        ofText ⟨"../p"⟩ sampleManifest = .ok table ∧
        ∀ request, table.candidates request =
          aliases.filterMap (substitute? (Path.join ⟨"../p"⟩ ⟨baseUrl⟩) request) := by
  intro manifest paths
  have hasOptions : manifest.get? "compilerOptions" = some sampleOptions := by rfl
  have hasPaths : sampleOptions.get? "paths" = some (.obj paths) := by rfl
  obtain ⟨written, aliases, baseUrl, table, writes, lists, seenFrom, built, -, gives, -⟩ :=
    @ofText_substitutes ⟨"../p"⟩ _ _ _ _ parse?_sampleManifest hasOptions hasPaths
  exact ⟨parse?_sampleManifest, hasOptions, hasPaths, written, aliases, baseUrl, table, writes,
    lists, seenFrom, built, gives⟩

end AliasTable

end PageIndex
