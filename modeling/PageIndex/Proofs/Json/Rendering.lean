import PageIndex.Alias.Manifest
import PageIndex.Proofs.Json.Reading

/-!
# Renderings of JSON values

A JSON value can be written with comments and blanks between its tokens and with a comma after the
last item of any array or object that has one. The main statement is `strip_keeps_json`: stripping
leaves the tokens of such a text and nothing but blanks between them, it leaves a text without
comments and trailing commas as it is, and a manifest has the same aliases in every rendering.
-/

namespace PageIndex.Json

namespace Layout

/-- Whether no comment stands in a text. -/
def HasNoComments (layout : Layout) : Prop :=
  layout.last = none ∧ ∀ piece ∈ layout.pieces,
    (∃ l, piece = .lexeme l) ∨ ∃ c isBlank, piece = .blank c isBlank

/-- Whether all blanks of a text are those of JSON. -/
def IsSpacedAsJson (layout : Layout) : Prop :=
  ∀ c isBlank, Piece.blank c isBlank ∈ layout.pieces → isSpace c = true

/-- The text of lexemes without anything between them. -/
def ofLexemes (ls : List Lexeme) : Layout :=
  ⟨ls.map .lexeme, none⟩

private theorem lexemes_ofLexemes (ls : List Lexeme) : (ofLexemes ls).lexemes = ls := by
  simp [ofLexemes, lexemes, lexemesOf, Piece.lexeme?, Function.comp_def]

private theorem text_ofLexemes (ls : List Lexeme) :
    (ofLexemes ls).text = ls.flatMap Lexeme.text := by
  rw [text, ofLexemes, List.flatMap_map, lastText, List.append_nil]
  rfl

/-- The tokens that are left of a text in which each lexeme stands apart from the next. -/
theorem tokens_strip {layout : Layout} (spaced : layout.IsSpacedAsJson)
    (apart : layout.lexemes.IsChain Lexeme.Apart) :
    tokens (strip layout.text) = tokensOf (Lexeme.prune layout.lexemes) := by
  rw [strip_text]
  exact tokens_cleanPieces spaced apart

private theorem length_prune_le (ls : List Lexeme) :
    (Lexeme.prune ls).length ≤ ls.length := by
  induction ls with
  | nil => exact Nat.le_refl _
  | cons l rest ih =>
    rw [Lexeme.prune]
    split
    · exact Nat.le_succ_of_le ih
    · exact Nat.succ_le_succ ih

/-- Pieces without comments and without a comma to be left out stay as they are. -/
private theorem cleanPieces_eq {pieces : List Piece}
    (noComments : ∀ piece ∈ pieces,
      (∃ l, piece = .lexeme l) ∨ ∃ c isBlank, piece = .blank c isBlank)
    (kept : Lexeme.prune (lexemesOf pieces) = lexemesOf pieces) :
    cleanPieces pieces = pieces.flatMap Piece.text := by
  induction pieces with
  | nil => rfl
  | cons piece rest ih =>
    rw [List.forall_mem_cons] at noComments
    rcases noComments.1 with ⟨l, rfl⟩ | ⟨c, isBlank, rfl⟩
    · have lexemes : lexemesOf (.lexeme l :: rest) = l :: lexemesOf rest := rfl
      rw [lexemes, Lexeme.prune] at kept
      rw [cleanPieces, Piece.cleanText, Lexeme.cleanText]
      split at kept
      · have shorter := length_prune_le (lexemesOf rest)
        rw [kept, List.length_cons] at shorter
        omega
      · next stays =>
        rw [if_neg stays, ih noComments.2 (List.cons.inj kept).2]
        rfl
    · rw [cleanPieces, ih noComments.2 kept]
      rfl

end Layout

/-- A value in a rendering has the tokens of its plain text. -/
private theorem Tree.tokens_strip {t : Tree} {trailing : Bool} {layout : Layout}
    (spaced : layout.IsSpacedAsJson) (written : layout.lexemes = t.lexemes trailing) :
    tokens (strip layout.text) = tokensOf (t.lexemes false) := by
  have rendering := t.renders trailing
  have apart := rendering.apart .nil fun _ hl => by cases hl
  have pruned := rendering.prune []
  rw [List.append_nil] at apart pruned
  rw [Layout.tokens_strip spaced (written ▸ apart), written, pruned, Lexeme.prune, List.append_nil]

/-- Stripping the plain text of a value changes nothing. -/
private theorem Tree.strip_eq {t : Tree} {layout : Layout} (noComments : layout.HasNoComments)
    (written : layout.lexemes = t.lexemes false) : strip layout.text = layout.text := by
  have pruned := (t.renders false).prune []
  rw [List.append_nil, Lexeme.prune, List.append_nil, ← written] at pruned
  rw [Layout.strip_text, Layout.clean, Layout.text, noComments.1,
    Layout.cleanPieces_eq noComments.2 pruned]
  rfl

/-- Reading a text only takes its tokens. -/
private theorem parse?_eq_of_tokens {cs ds : List Char} (h : tokens cs = tokens ds)
    (levels : Nat) : parse? levels cs = parse? levels ds := by
  rw [parse?, parse?, h]

/-- A rendering of a value is read as its plain text is. -/
private theorem Tree.parse?_strip {t : Tree} {layout : Layout} (spaced : layout.IsSpacedAsJson)
    (written : layout.lexemes = t.lexemes true) (levels : Nat) :
    parse? levels (strip layout.text) = parse? levels (strip t.text) := by
  have plain : (Layout.ofLexemes (t.lexemes false)).IsSpacedAsJson := by
    simp [Layout.IsSpacedAsJson, Layout.ofLexemes]
  have stripped := Tree.tokens_strip plain (Layout.lexemes_ofLexemes _)
  rw [Layout.text_ofLexemes] at stripped
  exact parse?_eq_of_tokens ((Tree.tokens_strip spaced written).trans stripped.symm) levels

/-- A rendering of a value is read as the value. -/
private theorem Tree.parse?_eq_some {t : Tree} {layout : Layout} {v : Json} {levels : Nat}
    (spaced : layout.IsSpacedAsJson) (written : layout.lexemes = t.lexemes true)
    (value : t.value? = some v) (deep : t.depth < levels) :
    parse? levels (strip layout.text) = some v := by
  obtain ⟨ts, tokens, read⟩ := Tree.readsAs value deep
  obtain ⟨h, e⟩ := read []
  rw [← List.append_nil ts] at tokens
  rw [parse?, Tree.tokens_strip spaced written, tokens]
  dsimp only
  rw [e]

private theorem ofText_ofList (root : Path) (cs : List Char) :
    AliasTable.ofText root (String.ofList cs) =
      (parse? AliasTable.manifestLevels (strip cs)).elim (.error .notJson) fun manifest =>
        .ok (AliasTable.ofJson root manifest) := by
  rw [AliasTable.ofText, String.toList_ofList]
  cases parse? AliasTable.manifestLevels (strip cs) <;> rfl

/-- Stripping a text with comments keeps its tokens, its blanks and the ends of its lines, turns all
else of its comments into spaces, and turns a comma into a space exactly when a closing mark is the
next token. So the text of a JSON value, which every value has, stays as it is. A manifest that
renders a value with comments, blanks and trailing commas has the same aliases as the one with the
plain text of the value: those that the value holds, if it is not nested too deeply to be read. -/
theorem strip_keeps_json :
    (∀ layout : Layout, strip layout.text = layout.clean) ∧
    (∀ v : Json, ∃ t : Tree, t.text = compact v) ∧
    (∀ (t : Tree) (layout : Layout), layout.HasNoComments → layout.lexemes = t.lexemes false →
      strip layout.text = layout.text) ∧
    ∀ (t : Tree) (layout : Layout) (root : Path), layout.IsSpacedAsJson →
      layout.lexemes = t.lexemes true →
      AliasTable.ofText root (String.ofList layout.text) =
        AliasTable.ofText root (String.ofList t.text) ∧
      ∀ v, t.value? = some v → t.depth < AliasTable.manifestLevels →
        AliasTable.ofText root (String.ofList layout.text) = .ok (AliasTable.ofJson root v) := by
  refine ⟨Layout.strip_text, Tree.exists_text, fun t layout => Tree.strip_eq, ?_⟩
  intro t layout root spaced written
  refine ⟨?_, fun v value deep => ?_⟩
  · rw [ofText_ofList, ofText_ofList, Tree.parse?_strip spaced written]
  · rw [ofText_ofList, Tree.parse?_eq_some spaced written value deep]
    rfl

private def oneWord : BareWord :=
  ⟨['1'], by decide, List.all_eq_true.1 rfl⟩

/-- An object with a number in an array, and a comma after each last item. -/
def notedTree : Tree :=
  .object [([.plain 'a' (by decide)], .array [.bare oneWord] true)] true

/-- The object with a mark of each kind in comments between its tokens. -/
def notedLayout : Layout where
  pieces := [.lexeme (.mark .openBrace), .block [','] (by decide),
    .lexeme (.quoted [.plain 'a' (by decide)]), .lexeme (.mark .colon), .blank ' ' (by decide),
    .lexeme (.mark .openBracket), .lexeme (.bare oneWord), .lexeme (.mark .comma),
    .block ['*'] (by decide), .lexeme (.mark .closeBracket), .lexeme (.mark .comma),
    .line ⟨[']'], by simp [isLineEnd]⟩ '\n' (by decide), .lexeme (.mark .closeBrace)]
  last := some ⟨['\x22'], by simp [isLineEnd]⟩

/-- The object on two lines. -/
def twoLineLayout : Layout where
  pieces := [.lexeme (.mark .openBrace), .lexeme (.quoted [.plain 'a' (by decide)]),
    .lexeme (.mark .colon), .blank '\n' (by decide), .lexeme (.mark .openBracket),
    .lexeme (.bare oneWord), .lexeme (.mark .closeBracket),
    .lexeme (.mark .closeBrace)]
  last := none

/-- The text on two lines stays as it is, and the one with comments has the aliases of the object,
as the plain text has. -/
theorem strip_keeps_json_noted :
    twoLineLayout.HasNoComments ∧ twoLineLayout.lexemes = notedTree.lexemes false ∧
      strip twoLineLayout.text = twoLineLayout.text ∧
    notedLayout.text = "\x7b/*,*/\x22a\x22: [1,/***/],//]\n\x7d//\x22".toList ∧
      notedLayout.IsSpacedAsJson ∧ notedLayout.lexemes = notedTree.lexemes true ∧
      AliasTable.ofText ⟨"."⟩ (String.ofList notedLayout.text) =
        AliasTable.ofText ⟨"."⟩ (String.ofList notedTree.text) ∧
      notedTree.value? = some (.obj [("a", .arr [.int 1])]) ∧
      notedTree.depth < AliasTable.manifestLevels ∧
      AliasTable.ofText ⟨"."⟩ (String.ofList notedLayout.text) =
        .ok (AliasTable.ofJson ⟨"."⟩ (.obj [("a", .arr [.int 1])])) := by
  have noComments : twoLineLayout.HasNoComments := by
    have blank : Text.isBlank '\n' = true := by decide
    simp [Layout.HasNoComments, twoLineLayout, blank]
  have spaced : notedLayout.IsSpacedAsJson := by
    intro c isBlank hc
    obtain rfl : c = ' ' := by simpa [notedLayout] using hc
    decide
  have value : notedTree.value? = some (.obj [("a", .arr [.int 1])]) := by
    have name : tokens ['\x22', 'a', '\x22'] = some [.str "a"] := by
      have cut : cutToken ['\x22', 'a', '\x22'] = some (.str "a", []) := rfl
      rw [tokens_cut (by decide) (by decide), cut]
      simp [tokens]
    have number : tokens ['1'] = some [.scalar (.int 1)] := by
      have cut : cutToken ['1'] = some (.scalar (.int 1), []) := rfl
      rw [tokens_cut (by decide) (by decide), cut]
      simp [tokens]
    simp [notedTree, Tree.value?, Tree.memberValues?, Tree.itemValues?, spelled?, BareWord.value?,
      Lexeme.text, StringPart.text, oneWord, name, number]
    rfl
  have deep : notedTree.depth < AliasTable.manifestLevels := by decide
  obtain ⟨-, -, unchanged, rendered⟩ := strip_keeps_json
  obtain ⟨same, read⟩ := rendered notedTree notedLayout ⟨"."⟩ spaced rfl
  exact ⟨noComments, rfl, unchanged notedTree twoLineLayout noComments rfl, by decide, spaced, rfl,
    same, value, deep, read _ value deep⟩

end PageIndex.Json
