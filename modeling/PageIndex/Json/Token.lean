import PageIndex.Json.Number
import PageIndex.Text.Hex

/-!
# JSON tokens

A JSON text as a list of tokens. Blanks between tokens leave no trace, so two texts that differ
only in blanks have the same tokens and with them the same value.
-/

namespace PageIndex.Json

/-- A token of a JSON text. Numbers and the three words are tokens with a value. -/
inductive Token where
  | openBrace
  | closeBrace
  | openBracket
  | closeBracket
  | colon
  | comma
  | str (s : String)
  | scalar (v : Json)

/-- The blanks that may stand between tokens. -/
def isSpace (c : Char) : Bool :=
  c = ' ' || c = '\n' || c = '\r' || c = '\t'

/-- The token of a single mark. -/
def markToken? (c : Char) : Option Token :=
  if c = '\x7b' then some .openBrace
  else if c = '\x7d' then some .closeBrace
  else if c = '[' then some .openBracket
  else if c = ']' then some .closeBracket
  else if c = ':' then some .colon
  else if c = ',' then some .comma
  else none

/-- The character of a short escape. -/
def shortEscape? (c : Char) : Option Char :=
  if c = '\x22' || c = '\\' || c = '/' then some c
  else if c = 'b' then some '\x08'
  else if c = 'f' then some '\x0c'
  else if c = 'n' then some '\n'
  else if c = 'r' then some '\r'
  else if c = 't' then some '\t'
  else none

/-- The content of a string after its opening quotation mark, and what follows the closing one.
A half of a pair that stands alone and an unescaped control are refused. -/
def cutString : List Char → Option (List Char × List Char)
  | [] => none
  | '\x22' :: rest => some ([], rest)
  | '\\' :: 'u' :: a :: b :: c :: d :: rest =>
    match Text.hexUnit? a b c d with
    | none => none
    | some unit =>
      if Text.isHighHalf unit then
        match rest with
        | '\\' :: 'u' :: e :: f :: g :: h :: rest =>
          match Text.hexUnit? e f g h with
          | none => none
          | some low =>
            if Text.isLowHalf low then
              (cutString rest).map fun r => (Char.ofNat (Text.joinHalves unit low) :: r.1, r.2)
            else none
        | _ => none
      else if Text.isLowHalf unit then none
      else (cutString rest).map fun r => (Char.ofNat unit :: r.1, r.2)
  | '\\' :: e :: rest =>
    match shortEscape? e with
    | none => none
    | some c => (cutString rest).map fun r => (c :: r.1, r.2)
  | c :: rest =>
    if c.toNat < 0x20 then none else (cutString rest).map fun r => (c :: r.1, r.2)

/-- Cuts a token that is more than one mark. -/
def cutToken : List Char → Option (Token × List Char)
  | 't' :: 'r' :: 'u' :: 'e' :: rest => some (.scalar (.bool true), rest)
  | 'f' :: 'a' :: 'l' :: 's' :: 'e' :: rest => some (.scalar (.bool false), rest)
  | 'n' :: 'u' :: 'l' :: 'l' :: rest => some (.scalar .null, rest)
  | '\x22' :: rest => (cutString rest).map fun r => (.str (String.ofList r.1), r.2)
  | cs => do
    let (parts, rest) ← cutNumber cs
    let v ← parts.value?
    some (.scalar v, rest)

/-- What follows a string does not depend on what is done to its content. -/
theorem eq_some_of_map {cut : Option (List Char × List Char)} {f : List Char → List Char}
    {content rest : List Char} (h : (cut.map fun r => (f r.1, r.2)) = some (content, rest)) :
    ∃ before, cut = some (before, rest) := by
  obtain ⟨r, hr, he⟩ := Option.map_eq_some_iff.1 h
  cases he
  exact ⟨r.1, hr⟩

/-- What follows a string is shorter than the text. -/
theorem cutString_shorter {cs content rest : List Char}
    (h : cutString cs = some (content, rest)) : rest.length < cs.length := by
  fun_induction cutString cs generalizing content rest
  case case2 => cases h; exact Nat.lt_succ_self _
  case case5 ih | case9 ih | case11 ih | case13 ih =>
    obtain ⟨_, hr⟩ := eq_some_of_map h
    have := ih hr
    simp only [List.length_cons]
    omega
  all_goals cases h

/-- What follows a token is shorter than the text. -/
theorem cutToken_shorter {cs rest : List Char} {t : Token}
    (h : cutToken cs = some (t, rest)) : rest.length < cs.length := by
  unfold cutToken at h
  split at h
  next => cases h; simp only [List.length_cons]; omega
  next => cases h; simp only [List.length_cons]; omega
  next => cases h; simp only [List.length_cons]; omega
  next =>
    obtain ⟨r, hr, he⟩ := Option.map_eq_some_iff.1 h
    cases he
    exact Nat.lt_succ_of_lt (cutString_shorter hr)
  next =>
    obtain ⟨⟨parts, after⟩, hn, h⟩ := Option.bind_eq_some_iff.1 h
    obtain ⟨v, -, h⟩ := Option.bind_eq_some_iff.1 h
    cases h
    exact cutNumber_shorter hn

/-- The tokens of a text, if it is made of tokens and blanks. -/
def tokens : List Char → Option (List Token)
  | [] => some []
  | c :: cs =>
    if isSpace c then tokens cs
    else
      match markToken? c with
      | some t => (tokens cs).map (t :: ·)
      | none =>
        match _cut : cutToken (c :: cs) with
        | none => none
        | some (t, rest) => (tokens rest).map (t :: ·)
termination_by cs => cs.length
decreasing_by
  · exact Nat.lt_succ_self _
  · exact Nat.lt_succ_self _
  · exact cutToken_shorter _cut

end PageIndex.Json
