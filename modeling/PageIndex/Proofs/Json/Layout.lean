import Mathlib.Data.List.Infix
import PageIndex.Json.Comments

/-!
# Texts made of lexemes, blanks and comments

A JSON text with comments, told by what stands in it: marks, strings, numbers and words, with
blanks and comments before, between and after them. The text is read off such a layout, and so is
the text that is left when comments and trailing commas are taken out. The main statement is
`Layout.strip_text`: stripping the one text gives the other.
-/

namespace PageIndex.Json

/-- A punctuation mark. -/
inductive Mark where
  | openBrace
  | closeBrace
  | openBracket
  | closeBracket
  | colon
  | comma
deriving DecidableEq, Repr

/-- The character of a mark. -/
def Mark.char : Mark → Char
  | .openBrace => '\x7b'
  | .closeBrace => '\x7d'
  | .openBracket => '['
  | .closeBracket => ']'
  | .colon => ':'
  | .comma => ','

/-- A part of what stands between the quotation marks of a string. -/
inductive StringPart where
  /-- A character without a reverse solidus before it. -/
  | plain (c : Char) (isPlain : c ≠ '\x22' ∧ c ≠ '\\')
  /-- A reverse solidus and the character after it. -/
  | escape (c : Char)

/-- The text of a part of a string. -/
def StringPart.text : StringPart → List Char
  | .plain c _ => [c]
  | .escape c => ['\\', c]

/-- A character of a number or a word. -/
def isBare (c : Char) : Bool :=
  !(Text.isBlank c || ['\x22', '/', '\x7b', '\x7d', '[', ']', ':', ','].contains c)

/-- A number or a word as it is written. -/
abbrev BareWord : Type :=
  { cs : List Char // cs ≠ [] ∧ ∀ c ∈ cs, isBare c = true }

/-- A token as it is written. -/
inductive Lexeme where
  | mark (m : Mark)
  | quoted (parts : List StringPart)
  | bare (word : BareWord)

namespace Lexeme

/-- The text of a lexeme. -/
def text : Lexeme → List Char
  | .mark m => [m.char]
  | .quoted parts => '\x22' :: (parts.flatMap StringPart.text ++ ['\x22'])
  | .bare word => word.1

/-- Whether a lexeme is a number or a word. -/
def isBare : Lexeme → Bool
  | .bare _ => true
  | _ => false

/-- Whether a lexeme closes an array or an object. -/
def closes : Lexeme → Bool
  | .mark .closeBrace => true
  | .mark .closeBracket => true
  | _ => false

/-- Whether the first of some lexemes closes an array or an object. -/
def closesFirst (ls : List Lexeme) : Bool :=
  ls.head?.any closes

/-- Whether a lexeme is a comma. -/
def isComma : Lexeme → Bool
  | .mark .comma => true
  | _ => false

/-- What is left of a lexeme before others: a comma gives way to a closing mark that comes next, and
every other lexeme stays. -/
def cleanText (following : List Lexeme) (l : Lexeme) : List Char :=
  if l.isComma && closesFirst following then [' '] else l.text

end Lexeme

/-- What stands after the two solidi of a comment, up to the end of the line. -/
abbrev LineBody : Type :=
  { cs : List Char // ∀ c ∈ cs, isLineEnd c = false }

/-- What a text is made of. -/
inductive Piece where
  | lexeme (l : Lexeme)
  | blank (c : Char) (isBlank : Text.isBlank c = true)
  /-- A comment that a star and a solidus end. -/
  | block (body : List Char) (isOpen : ¬ ['*', '/'] <:+: body)
  /-- A comment with the end of its line. -/
  | line (body : LineBody) (ending : Char) (isEnd : isLineEnd ending = true)

namespace Piece

/-- The text of a piece. -/
def text : Piece → List Char
  | .lexeme l => l.text
  | .blank c _ => [c]
  | .block body _ => '/' :: '*' :: (body ++ ['*', '/'])
  | .line body ending _ => '/' :: '/' :: (body.1 ++ [ending])

/-- What is left of a piece: a blank stays, and of a comment the ends of its lines. -/
def cleanText (following : List Lexeme) : Piece → List Char
  | .lexeme l => l.cleanText following
  | .blank c _ => [c]
  | .block body isOpen => (block body isOpen).text.map blanked
  | .line body ending isEnd => (line body ending isEnd).text.map blanked

/-- The token of a piece, which blanks and comments do not have. -/
def lexeme? : Piece → Option Lexeme
  | .lexeme l => some l
  | _ => none

end Piece

/-- A text of JSON with comments: its pieces, and a comment at the very end if no line end follows
it. -/
structure Layout where
  pieces : List Piece
  last : Option LineBody

namespace Layout

/-- The text of a comment at the very end. -/
def lastText : Option LineBody → List Char
  | none => []
  | some body => '/' :: '/' :: body.1

/-- The text. -/
def text (layout : Layout) : List Char :=
  layout.pieces.flatMap Piece.text ++ lastText layout.last

/-- The tokens in pieces as they are written. -/
def lexemesOf (pieces : List Piece) : List Lexeme :=
  pieces.filterMap Piece.lexeme?

/-- The tokens of the text as they are written. -/
def lexemes (layout : Layout) : List Lexeme :=
  lexemesOf layout.pieces

/-- Pieces without comments and trailing commas. -/
def cleanPieces : List Piece → List Char
  | [] => []
  | piece :: rest => piece.cleanText (lexemesOf rest) ++ cleanPieces rest

/-- The text without comments and trailing commas. -/
def clean (layout : Layout) : List Char :=
  cleanPieces layout.pieces ++ (lastText layout.last).map blanked

end Layout

/-! ### Characters -/

/-- A character of some kind is none that is not of the kind. -/
theorem ne_of_kind {kind : Char → Bool} {c d : Char} (hc : kind c = true) (hd : kind d = false) :
    c ≠ d := by
  rintro rfl
  exact Bool.noConfusion (hc.symm.trans hd)

/-- A blank is no closing mark. -/
theorem isCloser_of_isBlank {c : Char} (h : Text.isBlank c = true) : isCloser c = false := by
  have brace : c ≠ '\x7d' := ne_of_kind h (by decide)
  have bracket : c ≠ ']' := ne_of_kind h (by decide)
  simp [isCloser, brace, bracket]

/-- What a character of a number or a word is not. -/
theorem isBare_iff {c : Char} :
    isBare c = true ↔ Text.isBlank c = false ∧ c ≠ '\x22' ∧ c ≠ '/' ∧ c ≠ '\x7b' ∧ c ≠ '\x7d' ∧
      c ≠ '[' ∧ c ≠ ']' ∧ c ≠ ':' ∧ c ≠ ',' := by
  simp [isBare]

/-! ### The scan piece by piece -/

section Scan

variable {c : Char} {cs body rest : List Char}

/-- Between tokens, the first character tells whether a closing mark comes next, if it is no blank
and opens no comment. -/
theorem closerFollows_cons (h : c ≠ '/') :
    closerFollows .outside (c :: cs) =
      (isCloser c || (Text.isBlank c && closerFollows .outside cs)) := by
  rw [closerFollows] <;> simp [h]

/-- Between tokens a character that is no solidus is copied, unless it is a comma that gives way. -/
theorem stripFrom_cons (h : c ≠ '/') :
    stripFrom .outside (c :: cs) =
      if c = ',' then (if closerFollows .outside cs then ' ' else ',') :: stripFrom .outside cs
      else c :: stripFrom (if c = '\x22' then .string else .outside) cs := by
  rw [stripFrom] <;> simp [h]

/-- Inside a comment that a star and a solidus end, the end comes only after its body. -/
private theorem not_ends_here (isOpen : ¬ ['*', '/'] <:+: c :: body) (tail : List Char)
    (star : c = '*') (solidus : body ++ '*' :: '/' :: rest = '/' :: tail) : False := by
  cases body with
  | nil => cases solidus
  | cons d body =>
    obtain rfl : d = '/' := (List.cons.inj solidus).1
    exact isOpen ⟨[], body, by simp [star]⟩

private theorem isOpen_tail (isOpen : ¬ ['*', '/'] <:+: c :: body) : ¬ ['*', '/'] <:+: body :=
  fun h => isOpen (List.infix_cons h)

private theorem closerFollows_block (isOpen : ¬ ['*', '/'] <:+: body) (rest : List Char) :
    closerFollows .blockComment (body ++ '*' :: '/' :: rest) = closerFollows .outside rest := by
  induction body with
  | nil => rfl
  | cons c body ih =>
    rw [List.cons_append, closerFollows, ih (isOpen_tail isOpen)]
    exact not_ends_here isOpen

/-- A comment that a star and a solidus end is blanked up to its end. -/
theorem stripFrom_block (isOpen : ¬ ['*', '/'] <:+: body) (rest : List Char) :
    stripFrom .blockComment (body ++ '*' :: '/' :: rest) =
      (body ++ ['*', '/']).map blanked ++ stripFrom .outside rest := by
  induction body with
  | nil => rfl
  | cons c body ih =>
    rw [List.cons_append, stripFrom, ih (isOpen_tail isOpen)]
    · rfl
    · exact not_ends_here isOpen

private theorem closerFollows_line (h : ∀ c ∈ body, isLineEnd c = false) (rest : List Char) :
    closerFollows .lineComment (body ++ rest) = closerFollows .lineComment rest := by
  induction body with
  | nil => rfl
  | cons c body ih =>
    rw [List.forall_mem_cons] at h
    rw [List.cons_append, closerFollows, h.1, if_neg Bool.false_ne_true, ih h.2]

/-- A comment that ends with its line is blanked up to the end of the line. -/
theorem stripFrom_line (h : ∀ c ∈ body, isLineEnd c = false) (rest : List Char) :
    stripFrom .lineComment (body ++ rest) =
      body.map blanked ++ stripFrom .lineComment rest := by
  induction body with
  | nil => rfl
  | cons c body ih =>
    rw [List.forall_mem_cons] at h
    rw [List.cons_append, stripFrom, h.1, if_neg Bool.false_ne_true, ih h.2]
    rfl

/-- Inside a string its parts are copied. -/
theorem stripFrom_string (parts : List StringPart) (rest : List Char) :
    stripFrom .string (parts.flatMap StringPart.text ++ rest) =
      parts.flatMap StringPart.text ++ stripFrom .string rest := by
  induction parts with
  | nil => rfl
  | cons part parts ih =>
    rw [List.flatMap_cons, List.append_assoc]
    cases part with
    | plain c isPlain => simp [StringPart.text, stripFrom, isPlain, ih]
    | escape c => simp [StringPart.text, stripFrom, ih]

private theorem stripFrom_bare (h : ∀ c ∈ cs, isBare c = true) :
    stripFrom .outside (cs ++ rest) = cs ++ stripFrom .outside rest := by
  induction cs with
  | nil => rfl
  | cons c cs ih =>
    rw [List.forall_mem_cons] at h
    obtain ⟨-, quote, solidus, -, -, -, -, -, comma⟩ := isBare_iff.1 h.1
    rw [List.cons_append, stripFrom_cons solidus, if_neg comma, if_neg quote, ih h.2]
    rfl

/-- The first character of a lexeme tells whether it closes an array or an object. -/
private theorem closerFollows_lexeme (l : Lexeme) :
    closerFollows .outside (l.text ++ rest) = l.closes := by
  cases l with
  | mark m => cases m <;> exact closerFollows_cons (by decide)
  | quoted parts => exact closerFollows_cons (by decide)
  | bare word =>
    obtain ⟨cs, filled, each⟩ := word
    cases cs with
    | nil => exact absurd rfl filled
    | cons c cs =>
      obtain ⟨blank, -, solidus, -, brace, -, bracket, -⟩ := isBare_iff.1 (each c (by simp))
      rw [Lexeme.text, List.cons_append, closerFollows_cons solidus, blank]
      simp [isCloser, brace, bracket, Lexeme.closes]

/-- A lexeme is copied, but for a comma before a closing mark. -/
private theorem stripFrom_lexeme {following : List Lexeme} (l : Lexeme)
    (next : closerFollows .outside rest = Lexeme.closesFirst following) :
    stripFrom .outside (l.text ++ rest) = l.cleanText following ++ stripFrom .outside rest := by
  cases l with
  | mark m =>
    have solidus : m.char ≠ '/' := by cases m <;> decide
    rw [Lexeme.text, List.singleton_append, stripFrom_cons solidus]
    cases m with
    | comma =>
      rw [if_pos (by rfl), next, Lexeme.cleanText, Lexeme.isComma, Bool.true_and]
      split <;> rfl
    | _ => rfl
  | quoted parts =>
    rw [Lexeme.text, List.cons_append, stripFrom_cons (by decide), if_neg (by decide),
      if_pos rfl, List.append_assoc]
    simp [stripFrom_string, stripFrom, Lexeme.cleanText, Lexeme.isComma, Lexeme.text]
  | bare word => exact stripFrom_bare word.2.2

end Scan

namespace Layout

/-- At the end of a text no closing mark follows, whether or not a comment stands there. -/
private theorem closerFollows_lastText (last : Option LineBody) :
    closerFollows .outside (lastText last) = false := by
  cases last with
  | none => exact closerFollows_nil .outside
  | some body =>
    have skipped := closerFollows_line body.2 []
    rw [List.append_nil] at skipped
    exact skipped.trans (closerFollows_nil .lineComment)

private theorem stripFrom_lastText (last : Option LineBody) :
    stripFrom .outside (lastText last) = (lastText last).map blanked := by
  cases last with
  | none => exact stripFrom_nil .outside
  | some body =>
    have skipped := stripFrom_line body.2 []
    rw [List.append_nil] at skipped
    rw [lastText, stripFrom, skipped, stripFrom_nil, List.append_nil]
    rfl

/-- Looking ahead for a closing mark gets past all blanks and comments to the next lexeme. -/
theorem closerFollows_pieces (pieces : List Piece) (last : Option LineBody) :
    closerFollows .outside (pieces.flatMap Piece.text ++ lastText last) =
      Lexeme.closesFirst (lexemesOf pieces) := by
  induction pieces with
  | nil => exact closerFollows_lastText last
  | cons piece rest ih =>
    rw [List.flatMap_cons, List.append_assoc]
    cases piece with
    | lexeme l => exact closerFollows_lexeme l
    | blank c isBlank =>
      have solidus : c ≠ '/' := ne_of_kind isBlank (by decide)
      rw [Piece.text, List.singleton_append, closerFollows_cons solidus,
        isCloser_of_isBlank isBlank, isBlank, ih]
      rfl
    | block body isOpen =>
      have skipped := closerFollows_block isOpen (rest.flatMap Piece.text ++ lastText last)
      rw [Piece.text, List.cons_append, List.cons_append, closerFollows, List.append_assoc]
      exact skipped.trans ih
    | line body ending isEnd =>
      rw [Piece.text, List.cons_append, List.cons_append, closerFollows, List.append_assoc,
        closerFollows_line body.2, List.singleton_append, closerFollows, if_pos isEnd, ih]
      rfl

/-- What the scan makes of pieces is their text without comments and trailing commas. -/
theorem stripFrom_pieces (pieces : List Piece) (last : Option LineBody) :
    stripFrom .outside (pieces.flatMap Piece.text ++ lastText last) =
      cleanPieces pieces ++ (lastText last).map blanked := by
  induction pieces with
  | nil => exact stripFrom_lastText last
  | cons piece rest ih =>
    -- What a comma gives way to is decided by the pieces after it, as they stand before the scan.
    have next := closerFollows_pieces rest last
    rw [List.flatMap_cons, List.append_assoc, cleanPieces, List.append_assoc, ← ih]
    cases piece with
    | lexeme l => exact stripFrom_lexeme l next
    | blank c isBlank =>
      have solidus : c ≠ '/' := ne_of_kind isBlank (by decide)
      have comma : c ≠ ',' := ne_of_kind isBlank (by decide)
      have quote : c ≠ '\x22' := ne_of_kind isBlank (by decide)
      rw [Piece.text, List.singleton_append, stripFrom_cons solidus, if_neg comma, if_neg quote]
      rfl
    | block body isOpen =>
      have skipped := stripFrom_block isOpen (rest.flatMap Piece.text ++ lastText last)
      rw [Piece.text, List.cons_append, List.cons_append, stripFrom, List.append_assoc]
      exact congrArg (' ' :: ' ' :: ·) skipped
    | line body ending isEnd =>
      rw [Piece.text, List.cons_append, List.cons_append, stripFrom, List.append_assoc,
        stripFrom_line body.2, List.singleton_append, stripFrom, if_pos isEnd, Piece.cleanText,
        Piece.text, List.map_cons, List.map_cons, List.map_append, List.cons_append,
        List.cons_append, List.append_assoc]
      rfl

/-- Stripping a text takes out just its comments and trailing commas. -/
theorem strip_text (layout : Layout) : strip layout.text = layout.clean :=
  stripFrom_pieces layout.pieces layout.last

end Layout

end PageIndex.Json
