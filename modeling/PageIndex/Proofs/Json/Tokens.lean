import Mathlib.Data.List.Chain
import PageIndex.Proofs.Json.Cutting
import PageIndex.Proofs.Json.Quoted

/-!
# Tokens lexeme by lexeme

A text is cut into tokens one lexeme at a time: what a lexeme gives does not depend on what follows
it, except that a number or a word must not go on. Blanks of JSON give nothing, so two texts with
the same lexemes have the same tokens, however their lexemes are set apart. The main statement is
`tokens_cleanPieces`.
-/

namespace PageIndex.Json

/-! ### The tokens of a text -/

/-- The tokens of two texts one after the other. -/
def both (first second : Option (List Token)) : Option (List Token) :=
  first.bind fun ts => second.map (ts ++ ·)

/-- The tokens of lexemes one after the other. -/
def tokensOf : List Lexeme → Option (List Token)
  | [] => some []
  | l :: rest => both (tokens l.text) (tokensOf rest)

section Tokens

variable {c : Char} {cs rest : List Char}

/-- A blank of JSON is a blank. -/
theorem isBlank_of_isSpace (h : isSpace c = true) : Text.isBlank c = true := by
  simp only [isSpace, Bool.or_eq_true, decide_eq_true_eq] at h
  rcases h with ((rfl | rfl) | rfl) | rfl <;> decide

/-- A blank of JSON gives no token. -/
theorem tokens_space (h : isSpace c = true) : tokens (c :: cs) = tokens cs := by
  rw [tokens, if_pos h]

/-- Blanks of JSON give no token. -/
theorem tokens_spaces (h : ∀ c ∈ cs, isSpace c = true) (rest : List Char) :
    tokens (cs ++ rest) = tokens rest := by
  induction cs with
  | nil => rfl
  | cons c cs ih =>
    rw [List.forall_mem_cons] at h
    rw [List.cons_append, tokens_space h.1, ih h.2]

/-- A mark gives its token. -/
theorem tokens_mark {t : Token} (space : isSpace c = false) (h : markToken? c = some t) :
    tokens (c :: cs) = (tokens cs).map (t :: ·) := by
  rw [tokens, if_neg (by simp [space]), h]

/-- Any other token is cut off the text. -/
theorem tokens_cut (space : isSpace c = false) (h : markToken? c = none) :
    tokens (c :: cs) = (cutToken (c :: cs)).bind fun r => (tokens r.2).map (r.1 :: ·) := by
  rw [tokens, if_neg (by simp [space]), h]
  dsimp only
  split
  · next hc => rw [hc]; rfl
  · next hc => rw [hc]; rfl

/-- A quotation mark starts a string. -/
theorem tokens_string (cs : List Char) :
    tokens ('\x22' :: cs) = (cutString cs).bind fun r =>
      (tokens r.2).map (Token.str (String.ofList r.1) :: ·) := by
  rw [tokens_cut (by decide) (by decide), cutToken]
  cases cutString cs <;> rfl

private theorem both_cons (t : Token) (first second : Option (List Token)) :
    both (first.map (t :: ·)) second = (both first second).map (t :: ·) := by
  cases first <;> cases second <;> rfl

/-- The tokens of a number or a word do not depend on what follows it. -/
private theorem tokens_bare {cs : List Char} (bare : ∀ c ∈ cs, isBare c = true)
    (h : Separate rest) : tokens (cs ++ rest) = both (tokens cs) (tokens rest) := by
  match cs with
  | [] =>
    rw [tokens]
    cases hr : tokens rest <;> simp [both, hr]
  | c :: cs =>
    obtain ⟨blank, quote, solidus, brace, brace', bracket, bracket', colon, comma⟩ :=
      isBare_iff.1 (bare c (by simp))
    have space : isSpace c = false := Bool.eq_false_iff.2 fun space =>
      Bool.noConfusion ((isBlank_of_isSpace space).symm.trans blank)
    have mark : markToken? c = none := by
      simp [markToken?, brace, brace', bracket, bracket', colon, comma]
    have cut := cutToken_append (List.cons_ne_nil c cs) bare h
    rw [List.cons_append] at cut
    rw [List.cons_append, tokens_cut space mark, tokens_cut space mark, cut]
    cases hc : cutToken (c :: cs) with
    | none => rfl
    | some r =>
      obtain ⟨t, left⟩ := r
      have shorter := cutToken_shorter hc
      have suffix := cutToken_suffix bare hc
      have after := tokens_bare (fun d hd => bare d (suffix.mem hd)) h
      simp only [Option.map_some, Option.bind_some, after, both_cons]
termination_by cs.length
decreasing_by exact shorter

/-- The tokens of a string do not depend on what follows it. -/
private theorem tokens_quoted (parts : List StringPart) :
    tokens ((Lexeme.quoted parts).text ++ rest) =
      both (tokens (Lexeme.quoted parts).text) (tokens rest) := by
  obtain ⟨content, h⟩ := cuts_quoted parts
  have step (rest : List Char) : tokens ('\x22' :: closed parts rest) =
      (content.map fun cs => Token.str (String.ofList cs)).bind fun t =>
        (tokens rest).map (t :: ·) := by
    rw [tokens_string, h rest]
    cases content <;> rfl
  have text : (Lexeme.quoted parts).text = '\x22' :: closed parts [] := rfl
  have text_append : (Lexeme.quoted parts).text ++ rest = '\x22' :: closed parts rest := by
    simp [text, closed]
  rw [text_append, text, step, step, tokens]
  cases content with
  | none => rfl
  | some cs => cases tokens rest <;> simp [both]

/-- A mark is no blank. -/
theorem isSpace_mark (m : Mark) : isSpace m.char = false := by
  cases m <;> decide

/-- The tokens of a mark do not depend on what follows it. -/
private theorem tokens_of_mark (m : Mark) :
    tokens ((Lexeme.mark m).text ++ rest) = both (tokens (Lexeme.mark m).text) (tokens rest) := by
  obtain ⟨t, ht⟩ : ∃ t, markToken? m.char = some t := by cases m <;> exact ⟨_, rfl⟩
  rw [Lexeme.text, List.singleton_append, tokens_mark (isSpace_mark m) ht,
    tokens_mark (isSpace_mark m) ht, tokens]
  cases tokens rest <;> simp [both]

end Tokens

/-- The tokens of a lexeme do not depend on what follows it, if that does not go on with a number or
a word that the lexeme is. -/
theorem tokens_lexeme (l : Lexeme) {rest : List Char} (h : l.isBare = true → Separate rest) :
    tokens (l.text ++ rest) = both (tokens l.text) (tokens rest) := by
  cases l with
  | mark m => exact tokens_of_mark m
  | quoted parts => exact tokens_quoted parts
  | bare word => exact tokens_bare word.2.2 (h rfl)

/-! ### The tokens of a layout -/

namespace Lexeme

/-- Lexemes without the commas before closing marks. -/
def prune : List Lexeme → List Lexeme
  | [] => []
  | l :: rest => if l.isComma && closesFirst rest then prune rest else l :: prune rest

/-- Whether something must stand between two lexemes for them to be two. -/
def Apart (l m : Lexeme) : Prop :=
  l.isBare = true → m.isBare = false

end Lexeme

/-- A comment leaves blanks of JSON. -/
private theorem isSpace_blanked (cs : List Char) : ∀ c ∈ cs.map blanked, isSpace c = true := by
  intro c hc
  obtain ⟨d, -, rfl⟩ := List.mem_map.1 hc
  rw [blanked]
  split
  · next h =>
    simp only [isLineEnd, Bool.or_eq_true, decide_eq_true_eq] at h
    rcases h with rfl | rfl <;> decide
  · decide

/-- A text does not start with a number or a word when its first lexeme is none. -/
private theorem separate_clean {pieces : List Piece} {last : Option LineBody}
    (h : ∀ l ∈ (Layout.lexemesOf pieces).head?, l.isBare = false) :
    Separate (Layout.cleanPieces pieces ++ (Layout.lastText last).map blanked) := by
  cases pieces with
  | nil =>
    cases last with
    | none => exact fun c hc => by cases hc
    | some body => exact fun c hc => by cases hc; decide
  | cons piece rest =>
    rw [Layout.cleanPieces, List.append_assoc]
    cases piece with
    | lexeme l =>
      rw [Piece.cleanText, Lexeme.cleanText]
      split
      · exact fun c hc => by cases hc; decide
      · cases l with
        | mark m => exact fun c hc => by cases hc; cases m <;> decide
        | quoted parts => exact fun c hc => by cases hc; decide
        | bare word => cases h _ rfl
    | blank c isBlank => exact fun d hd => by cases hd; simp [isBare, isBlank]
    | block body isOpen => exact fun c hc => by cases hc; decide
    | line body ending isEnd => exact fun c hc => by cases hc; decide

/-- The tokens that are left of pieces are those of their lexemes without trailing commas. -/
theorem tokens_cleanPieces {pieces : List Piece} {last : Option LineBody}
    (spaced : ∀ c isBlank, Piece.blank c isBlank ∈ pieces → isSpace c = true)
    (apart : (Layout.lexemesOf pieces).IsChain Lexeme.Apart) :
    tokens (Layout.cleanPieces pieces ++ (Layout.lastText last).map blanked) =
      tokensOf (Lexeme.prune (Layout.lexemesOf pieces)) := by
  induction pieces with
  | nil =>
    have blank := tokens_spaces (isSpace_blanked (Layout.lastText last)) []
    rw [List.append_nil, tokens] at blank
    exact blank
  | cons piece rest ih =>
    have tail := ih fun c isBlank hc => spaced c isBlank (List.mem_cons_of_mem _ hc)
    rw [Layout.cleanPieces, List.append_assoc]
    cases piece with
    | lexeme l =>
      have lexemes : Layout.lexemesOf (.lexeme l :: rest) = l :: Layout.lexemesOf rest := rfl
      rw [lexemes, List.isChain_cons] at apart
      rw [lexemes, Lexeme.prune, Piece.cleanText, Lexeme.cleanText]
      split
      · exact (tokens_space (by decide)).trans (tail apart.2)
      · rw [tokensOf, ← tail apart.2]
        exact tokens_lexeme l fun bare => separate_clean fun m hm => apart.1 m hm bare
    | blank c isBlank => exact (tokens_space (spaced c isBlank (by simp))).trans (tail apart)
    | block body isOpen => exact (tokens_spaces (isSpace_blanked _) _).trans (tail apart)
    | line body ending isEnd => exact (tokens_spaces (isSpace_blanked _) _).trans (tail apart)

end PageIndex.Json
