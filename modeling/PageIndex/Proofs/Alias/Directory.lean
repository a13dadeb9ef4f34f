import PageIndex.Alias.Manifest
import PageIndex.Proofs.Json.Tokens
import PageIndex.Proofs.Path.Normal

/-!
# The directories of aliases

An alias of a project with an absolute root stands for a directory with a rooted path. What a
request has after the key is joined to the directory as a relative path, so the components of a
candidate are those of the directory and of the pieces after the key, reduced
(`components_candidate?`). The main statement is `candidates_below`: only a piece `..` leads out of
the directory.
-/

namespace PageIndex

namespace AliasTable

/-- The aliases of a table lead to directories with rooted paths. -/
def IsRooted (aliases : AliasTable) : Prop :=
  ∀ e ∈ aliases.entries, e.directory.IsRooted

/-- An alias leads to a directory with a rooted path when its targets are seen from an absolute
path. -/
theorem isRooted_of_entry? {base : Path} {pattern : String} {targets : Json} {e : AliasEntry}
    (absolute : base.isAbsolute = true) (given : entry? base pattern targets = some e) :
    e.directory.IsRooted := by
  unfold entry? at given
  obtain ⟨target, -, made⟩ := Option.map_eq_some_iff.1 given
  have seen : e.directory = (base.join ⟨withoutStar target⟩).clean := by rw [← made]
  rw [seen]
  exact Path.isRooted_clean (Path.isAbsolute_join absolute ⟨withoutStar target⟩)

/-- The aliases in the value of a manifest lead to directories with rooted paths when the root of
the project has an absolute path. -/
theorem isRooted_ofJson {root : Path} (absolute : root.isAbsolute = true) (manifest : Json) :
    (ofJson root manifest).IsRooted := by
  rw [ofJson]
  split
  · exact fun e he => nomatch he
  · split
    · exact fun e he => nomatch he
    · intro e he
      obtain ⟨p, -, given⟩ := List.mem_filterMap.1 he
      exact isRooted_of_entry? (Path.isAbsolute_join absolute _) given

/-- The aliases in the text of a manifest do so, too. -/
theorem isRooted_of_ofText {root : Path} {text : String} {aliases : AliasTable}
    (absolute : root.isAbsolute = true) (built : ofText root text = .ok aliases) :
    aliases.IsRooted := by
  rw [ofText] at built
  split at built
  · cases built
  · cases built
    exact isRooted_ofJson absolute _

/-- The ways to come by the aliases of a project with a given root: from the text of a manifest or
from a manifest file, which may be missing or no manifest at all. -/
inductive BuiltFrom (root : Path) : AliasTable → Prop where
  | parsed {text : String} {aliases : AliasTable} (h : ofText root text = .ok aliases) :
      BuiltFrom root aliases
  | loaded (tree : FileTree) (manifest : Path) : BuiltFrom root (load tree root manifest)

/-- All aliases of a project lead to directories with rooted paths when its root has an absolute
path. -/
theorem BuiltFrom.isRooted {root : Path} {aliases : AliasTable}
    (absolute : root.isAbsolute = true) (built : BuiltFrom root aliases) : aliases.IsRooted := by
  have emptyRooted : empty.IsRooted := fun e he => nomatch he
  cases built with
  | parsed h => exact isRooted_of_ofText absolute h
  | loaded tree manifest =>
    unfold load
    split
    · split
      · exact emptyRooted
      · split
        · exact emptyRooted
        · next h => exact isRooted_of_ofText absolute h
    · exact emptyRooted

end AliasTable

/-! ### Requests inside a directory -/

/-- Slashes at the start of a text add no component. -/
theorem filterMap_inner?_dropSlashes (text : List Char) :
    (Text.splitOn '/' (text.dropWhile (· == '/'))).filterMap Path.inner? =
      (Text.splitOn '/' text).filterMap Path.inner? := by
  induction text with
  | nil => rfl
  | cons c cs ih =>
    by_cases slash : c = '/'
    · subst slash
      have traceless : Path.inner? [] = none := rfl
      rw [List.dropWhile_cons_of_pos (by simp), ih, Text.splitOn, if_pos rfl, List.filterMap_cons,
        traceless]
    · rw [List.dropWhile_cons_of_neg (by simpa using slash)]

namespace AliasEntry

variable {e : AliasEntry} {request : String} {rest : List Char} {c : Path}

/-- The path that an alias with a rooted directory gives to a request is rooted. -/
theorem isRooted_candidate? (rooted : e.directory.IsRooted)
    (given : e.candidate? request = some c) : c.IsRooted := by
  obtain ⟨rest, -, rfl⟩ := Option.map_eq_some_iff.1 given
  dsimp only
  split
  · exact rooted
  · exact Path.isRooted_clean (Path.isAbsolute_join rooted.isAbsolute _)

/-- A request that starts with the key of an alias has a candidate. -/
theorem candidate?_of_append (h : request.toList = e.key.toList ++ rest) :
    e.candidate? request =
      some (if (rest.dropWhile (· == '/')).isEmpty then e.directory
        else (e.directory.join (Path.ofChars (rest.dropWhile (· == '/')))).clean) := by
  rw [candidate?, Text.dropStart?_eq_some_iff.2 h]
  rfl

/-- What is left of a text without the slashes at its start is a relative path. -/
theorem isAbsolute_dropSlashes (rest : List Char) :
    (Path.ofChars (rest.dropWhile (· == '/'))).isAbsolute = false := by
  have first := List.head?_dropWhile_not (· == '/') rest
  rw [Path.isAbsolute, Path.chars, Path.ofChars, String.toList_ofList, beq_eq_false_iff_ne]
  intro slash
  rw [slash] at first
  cases first

/-- The components of a candidate are those of the directory and of the pieces after the key,
reduced. -/
theorem components_candidate? (rooted : e.directory.IsRooted)
    (h : request.toList = e.key.toList ++ rest) :
    ∃ c, e.candidate? request = some c ∧ c.components =
      Path.cleanComponents
        (e.directory.components ++ (Text.splitOn '/' rest).filterMap Path.inner?) := by
  refine ⟨_, candidate?_of_append h, ?_⟩
  rw [← filterMap_inner?_dropSlashes]
  split
  · next nothing =>
    obtain ⟨names, hn, directory⟩ := rooted
    have pieces : (Text.splitOn '/' []).filterMap Path.inner? = [] := rfl
    rw [List.isEmpty_iff.1 nothing, pieces, List.append_nil, directory, Path.components_pathOf hn,
      Path.cleanComponents_names]
  · have absolute :=
      Path.isAbsolute_join rooted.isAbsolute (Path.ofChars (rest.dropWhile (· == '/')))
    have written : (Path.ofChars (rest.dropWhile (· == '/'))).pieces =
        Text.splitOn '/' (rest.dropWhile (· == '/')) := by
      rw [Path.pieces, Path.chars, Path.ofChars, String.toList_ofList]
    rw [Path.components_clean_of_absolute absolute, Path.cleanComponents,
      Path.foldl_components_join _ (isAbsolute_dropSlashes rest), written, Path.cleanComponents,
      List.foldl_append]

/-- Without a piece that goes up, a candidate has the components of the directory and names after
them. -/
theorem components_candidate?_of_noUp (rooted : e.directory.IsRooted)
    (h : request.toList = e.key.toList ++ rest) (noUp : ['.', '.'] ∉ Text.splitOn '/' rest)
    (given : e.candidate? request = some c) :
    ∃ names : List String, c.components = e.directory.components ++ names.map .name := by
  obtain ⟨c', given', parts⟩ := components_candidate? rooted h
  cases given.symm.trans given'
  obtain ⟨more, -, added⟩ := Path.exists_names_of_noUp noUp
  obtain ⟨names, hn, directory⟩ := rooted
  refine ⟨more, ?_⟩
  rw [parts, added, directory, Path.components_pathOf hn, List.cons_append, ← List.map_append,
    Path.cleanComponents_names]

end AliasEntry

namespace AliasTable

variable {root : Path} {aliases : AliasTable}

/-- The paths that aliases give to a request are rooted. -/
theorem IsRooted.candidates {request : String} {c : Path} (h : aliases.IsRooted)
    (hc : c ∈ aliases.candidates request) : c.IsRooted := by
  obtain ⟨e, he, given⟩ := List.mem_filterMap.1 hc
  exact AliasEntry.isRooted_candidate? (h e he) given

/-- A request that starts with the key of an alias has a candidate, whose components are those of
the directory and of the pieces after the key, reduced. If no piece after the key goes up, the
candidate is the directory or lies below it, whatever slashes and points stand there; so a request
that leads out of the directory has a piece `..` after the key. -/
theorem candidates_below (absolute : root.isAbsolute = true) (built : BuiltFrom root aliases)
    {e : AliasEntry} (he : e ∈ aliases.entries) {request : String} {rest : List Char}
    (h : request.toList = e.key.toList ++ rest) :
    ∃ c, e.candidate? request = some c ∧ c ∈ aliases.candidates request ∧
      c.components =
        Path.cleanComponents
          (e.directory.components ++ (Text.splitOn '/' rest).filterMap Path.inner?) ∧
      (['.', '.'] ∉ Text.splitOn '/' rest →
        c = e.directory ∨ ∃ names : List String, names ≠ [] ∧
          c.components = e.directory.components ++ names.map .name) ∧
      (¬ e.directory.components <+: c.components → ['.', '.'] ∈ Text.splitOn '/' rest) := by
  have rooted := built.isRooted absolute e he
  obtain ⟨c, given, parts⟩ := AliasEntry.components_candidate? rooted h
  have inside (noUp : ['.', '.'] ∉ Text.splitOn '/' rest) :=
    AliasEntry.components_candidate?_of_noUp rooted h noUp given
  refine ⟨c, given, List.mem_filterMap.2 ⟨e, he, given⟩, parts, fun noUp => ?_, fun outside => ?_⟩
  · obtain ⟨names, below⟩ := inside noUp
    by_cases nothing : names = []
    · left
      rw [nothing, List.map_nil, List.append_nil] at below
      exact (AliasEntry.isRooted_candidate? rooted given).eq_of_components rooted below
    · exact .inr ⟨names, nothing, below⟩
  · by_contra noUp
    obtain ⟨names, below⟩ := inside noUp
    exact outside (below ▸ List.prefix_append _ _)

/-- The tokens of a manifest that holds one alias and nothing else. -/
def oneAliasTokens (pattern target : String) : List Json.Token :=
  [.openBrace, .str "compilerOptions", .colon, .openBrace, .str "paths", .colon, .openBrace,
    .str pattern, .colon, .openBracket, .str target, .closeBracket, .closeBrace, .closeBrace,
    .closeBrace]

/-- A manifest without comments that has these tokens holds the alias. -/
theorem ofText_of_oneAliasTokens {text pattern target : String}
    (plain : Json.strip text.toList = text.toList)
    (h : Json.tokens text.toList = some (oneAliasTokens pattern target)) (root : Path) :
    ofText root text = .ok (ofJson root
      (.obj [("compilerOptions", .obj [("paths", .obj [(pattern, .arr [.str target])])])])) := by
  rw [ofText, plain, Json.parse?, h]
  simp [oneAliasTokens, Json.readValue, Json.readItems, Json.readMembers, Json.Rest.lift,
    Members.ofList, Members.write, manifestLevels]

/-- A manifest with a comment, a trailing comma, an alias that is given twice and one without a
target. -/
def sampleManifest : String :=
  "\x7b//\n\x22compilerOptions\x22:\x7b\x22baseUrl\x22:\x22src\x22,\x22paths\x22:\x7b" ++
    "\x22@/*\x22:[\x22old\x22],\x22~\x22:[\x22../lib\x22,1],\x22no\x22:[]," ++
    "\x22@/*\x22:[\x22./*\x22],\x7d\x7d\x7d"

/-- The aliases of the manifest. -/
def sampleAliases : AliasTable :=
  ⟨[⟨"@", ⟨"/p/src"⟩⟩, ⟨"~", ⟨"/p/lib"⟩⟩]⟩

/-- The options in the manifest. -/
def sampleOptions : Json :=
  .obj [("baseUrl", .str "src"),
    ("paths", .obj [("@/*", .arr [.str "./*"]), ("~", .arr [.str "../lib", .int 1]),
      ("no", .arr [])])]

private theorem tokens_sampleManifest :
    Json.tokens (Json.strip sampleManifest.toList) =
      some [.openBrace, .str "compilerOptions", .colon, .openBrace, .str "baseUrl", .colon,
        .str "src", .comma, .str "paths", .colon, .openBrace, .str "@/*", .colon, .openBracket,
        .str "old", .closeBracket, .comma, .str "~", .colon, .openBracket, .str "../lib", .comma,
        .scalar (.int 1), .closeBracket, .comma, .str "no", .colon, .openBracket, .closeBracket,
        .comma, .str "@/*", .colon, .openBracket, .str "./*", .closeBracket, .closeBrace,
        .closeBrace, .closeBrace] := by
  have number (rest : List Char) : Json.tokens ('1' :: ']' :: rest) =
      (Json.tokens rest).map (.scalar (.int 1) :: .closeBracket :: ·) := by
    have cut : Json.cutToken ('1' :: ']' :: rest) = some (.scalar (.int 1), ']' :: rest) := rfl
    rw [Json.tokens_cut (by decide) (by decide), cut, Option.bind_some,
      Json.tokens_mark (by decide) rfl, Option.map_map]
    rfl
  have solid : Text.isBlank '\x22' = false ∧ Text.isBlank '1' = false := by decide
  delta sampleManifest
  simp [Json.strip, Json.stripFrom, Json.closerFollows, Json.isCloser, Json.blanked,
    Json.isLineEnd, solid, Json.tokens, Json.tokens_string, number, Json.isSpace, Json.markToken?,
    Json.cutString]

/-- The value of the manifest. -/
theorem parse?_sampleManifest :
    Json.parse? manifestLevels (Json.strip sampleManifest.toList) =
      some (.obj [("compilerOptions", sampleOptions)]) := by
  rw [Json.parse?, tokens_sampleManifest]
  simp [sampleOptions, Json.readValue, Json.readItems, Json.readMembers, Json.Rest.lift,
    Members.ofList, Members.write, manifestLevels]

/-- The aliases are those of the manifest. -/
theorem ofText_sampleManifest : ofText ⟨"/p"⟩ sampleManifest = .ok sampleAliases := by
  rw [ofText, parse?_sampleManifest]
  exact congrArg Except.ok rfl

/-- What looks like an absolute path after a key stays below the directory. -/
theorem candidates_below_slashes :
    let e : AliasEntry := ⟨"@", ⟨"/p/src"⟩⟩
    let rest := "//etc/./x".toList
    (⟨"/p"⟩ : Path).isAbsolute = true ∧ BuiltFrom ⟨"/p"⟩ sampleAliases ∧
      e ∈ sampleAliases.entries ∧ "@//etc/./x".toList = e.key.toList ++ rest ∧
      ['.', '.'] ∉ Text.splitOn '/' rest ∧
      ∃ c, e.candidate? "@//etc/./x" = some c ∧
        (c = e.directory ∨ ∃ names : List String, names ≠ [] ∧
          c.components = e.directory.components ++ names.map .name) := by
  intro e rest
  have absolute : (⟨"/p"⟩ : Path).isAbsolute = true := by decide
  have built : BuiltFrom ⟨"/p"⟩ sampleAliases := .parsed ofText_sampleManifest
  have listed : e ∈ sampleAliases.entries := List.mem_cons_self
  have written : "@//etc/./x".toList = e.key.toList ++ rest := by decide
  have noUp : ['.', '.'] ∉ Text.splitOn '/' rest := by decide
  obtain ⟨c, given, -, -, inside, -⟩ := candidates_below absolute built listed written
  exact ⟨absolute, built, listed, written, noUp, c, given, inside noUp⟩

end AliasTable

end PageIndex
