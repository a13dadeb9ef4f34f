import PageIndex.Json.Reader
import PageIndex.Proofs.Json.Tree

/-!
# Reading written values

The value of a written JSON value comes from the values of its scalars, in the order in which they
are written. Its tokens are read as just this value when its arrays and objects are not nested more
deeply than the reader goes (`Tree.readsAs`).
-/

namespace PageIndex.Json

/-- The string that some parts spell, if they do. -/
def spelled? (parts : List StringPart) : Option String :=
  match tokens (Lexeme.quoted parts).text with
  | some [.str s] => some s
  | _ => none

/-- The value that a number or a word spells, if it does. -/
def BareWord.value? (word : BareWord) : Option Json :=
  match tokens word.1 with
  | some [.scalar v] => some v
  | _ => none

namespace Tree

mutual

/-- The value of a written value, if the spelling of each scalar has one. -/
def value? : Tree → Option Json
  | .quoted parts => (spelled? parts).map .str
  | .bare word => BareWord.value? word
  | .array items _ => (itemValues? items).map .arr
  | .object members _ => (memberValues? members).map fun ms => .obj (Members.ofList ms)

/-- The values of the items of an array. -/
def itemValues? : List Tree → Option (List Json)
  | [] => some []
  | t :: rest => t.value?.bind fun v => (itemValues? rest).map (v :: ·)

/-- The names and values of the members of an object. -/
def memberValues? : List (List StringPart × Tree) → Option (List (String × Json))
  | [] => some []
  | (key, t) :: rest =>
    (spelled? key).bind fun k => t.value?.bind fun v => (memberValues? rest).map ((k, v) :: ·)

end

mutual

/-- How many arrays and objects of a value stand inside one another. -/
def depth : Tree → Nat
  | .quoted _ => 0
  | .bare _ => 0
  | .array items _ => itemsDepth items + 1
  | .object members _ => membersDepth members + 1

/-- The greatest depth of the items of an array. -/
def itemsDepth : List Tree → Nat
  | [] => 0
  | t :: rest => max t.depth (itemsDepth rest)

/-- The greatest depth of the members of an object. -/
def membersDepth : List (List StringPart × Tree) → Nat
  | [] => 0
  | (_, t) :: rest => max t.depth (membersDepth rest)

end

end Tree

/-! ### Tokens of lexemes in a row -/

/-- The tokens of lexemes in two parts. -/
theorem tokensOf_append (xs ys : List Lexeme) :
    tokensOf (xs ++ ys) = both (tokensOf xs) (tokensOf ys) := by
  induction xs with
  | nil => cases h : tokensOf ys <;> simp [tokensOf, both, h]
  | cons x xs ih =>
    rw [List.cons_append, tokensOf, tokensOf, ih]
    cases tokens x.text <;> cases tokensOf xs <;> cases tokensOf ys <;> simp [both]

/-- The tokens of a mark and what follows it. -/
theorem tokensOf_mark {m : Mark} {t : Token} (h : markToken? m.char = some t) (xs : List Lexeme) :
    tokensOf (.mark m :: xs) = (tokensOf xs).map (t :: ·) := by
  have mark : tokens (Lexeme.mark m).text = some [t] := by
    rw [Lexeme.text, tokens_mark (isSpace_mark m) h, tokens]
    rfl
  rw [tokensOf, mark]
  rfl

/-! ### Reading -/

/-- Whether lexemes are read as a value, whatever follows them. -/
def ReadsAs (levels : Nat) (x : List Lexeme) (v : Json) : Prop :=
  ∃ ts, tokensOf x = some ts ∧ ∀ rest, ∃ h, readValue levels (ts ++ rest) = some (v, ⟨rest, h⟩)

/-- No value starts with a closing bracket. -/
private theorem readItems_closeBracket (levels : Nat) (rest : List Token) :
    readItems levels (.closeBracket :: rest) = none := by
  rw [readItems, readValue] <;> simp

/-- No member starts with a closing brace. -/
private theorem readMembers_closeBrace (levels : Nat) (rest : List Token) :
    readMembers levels (.closeBrace :: rest) = none := by
  rw [readMembers]
  simp

section Lists

variable {levels : Nat} {xs : List (List Lexeme)}

/-- Items are read one after the other. -/
private theorem reads_items {vs : List Json} (each : List.Forall₂ (ReadsAs levels) xs vs)
    (filled : xs ≠ []) :
    ∃ ts, tokensOf (listed false xs) = some ts ∧
      ∀ rest, ∃ h, readItems levels (ts ++ .closeBracket :: rest) = some (vs, ⟨rest, h⟩) := by
  induction each with
  | nil => exact absurd rfl filled
  | @cons x v xs vs first others ih =>
    obtain ⟨ts, tokens, read⟩ := first
    cases others with
    | nil =>
      refine ⟨ts, ?_, fun rest => ?_⟩
      · rw [listed, if_neg Bool.false_ne_true, List.append_nil, tokens]
      · obtain ⟨h, e⟩ := read (.closeBracket :: rest)
        rw [readItems, e]
        exact ⟨_, rfl⟩
    | @cons x' v' xs vs next others =>
      obtain ⟨us, tokens', read'⟩ := ih (List.cons_ne_nil _ _)
      refine ⟨ts ++ .comma :: us, ?_, fun rest => ?_⟩
      · rw [listed, tokensOf_append, tokens, tokensOf_mark (by rfl), tokens']
        rfl
      · obtain ⟨h, e⟩ := read (.comma :: (us ++ .closeBracket :: rest))
        obtain ⟨h', e'⟩ := read' rest
        rw [List.append_assoc, List.cons_append, readItems, e]
        dsimp only
        rw [e']
        exact ⟨_, rfl⟩

/-- Whether lexemes are read as a member of an object, whatever follows them. -/
private def ReadsAsMember (levels : Nat) (x : List Lexeme) (m : String × Json) : Prop :=
  ∃ ts, tokensOf x = some (.str m.1 :: .colon :: ts) ∧
    ∀ rest, ∃ h, readValue levels (ts ++ rest) = some (m.2, ⟨rest, h⟩)

/-- Members are read one after the other. -/
private theorem reads_members {ms : List (String × Json)}
    (each : List.Forall₂ (ReadsAsMember levels) xs ms) (filled : xs ≠ []) :
    ∃ ts, tokensOf (listed false xs) = some ts ∧
      ∀ rest, ∃ h, readMembers levels (ts ++ .closeBrace :: rest) = some (ms, ⟨rest, h⟩) := by
  induction each with
  | nil => exact absurd rfl filled
  | @cons x m xs ms first others ih =>
    obtain ⟨ts, tokens, read⟩ := first
    cases others with
    | nil =>
      refine ⟨.str m.1 :: .colon :: ts, ?_, fun rest => ?_⟩
      · rw [listed, if_neg Bool.false_ne_true, List.append_nil, tokens]
      · obtain ⟨h, e⟩ := read (.closeBrace :: rest)
        rw [List.cons_append, List.cons_append, readMembers, e]
        exact ⟨_, rfl⟩
    | @cons x' m' xs ms next others =>
      obtain ⟨us, tokens', read'⟩ := ih (List.cons_ne_nil _ _)
      refine ⟨.str m.1 :: .colon :: (ts ++ .comma :: us), ?_, fun rest => ?_⟩
      · rw [listed, tokensOf_append, tokens, tokensOf_mark (by rfl), tokens']
        rfl
      · obtain ⟨h, e⟩ := read (.comma :: (us ++ .closeBrace :: rest))
        obtain ⟨h', e'⟩ := read' rest
        rw [List.cons_append, List.cons_append, List.append_assoc, List.cons_append, readMembers, e]
        dsimp only
        rw [e']
        exact ⟨_, rfl⟩

/-- Items between brackets are read as an array. -/
private theorem reads_array {vs : List Json} (each : List.Forall₂ (ReadsAs (levels + 1)) xs vs) :
    ReadsAs (levels + 2)
      (.mark .openBracket :: (listed false xs ++ [.mark .closeBracket])) (.arr vs) := by
  cases each with
  | nil =>
    refine ⟨[.openBracket, .closeBracket], ?_, fun rest => ?_⟩
    · rw [tokensOf_mark (by rfl), listed, List.nil_append, tokensOf_mark (by rfl), tokensOf]
      rfl
    · rw [List.cons_append, List.cons_append, readValue]
      exact ⟨_, rfl⟩
  | cons first others =>
    obtain ⟨ts, tokens, read⟩ := reads_items (.cons first others) (List.cons_ne_nil _ _)
    refine ⟨.openBracket :: (ts ++ [.closeBracket]), ?_, fun rest => ?_⟩
    · rw [tokensOf_mark (by rfl), tokensOf_append, tokens, tokensOf_mark (by rfl), tokensOf]
      rfl
    · obtain ⟨h, e⟩ := read rest
      rw [List.cons_append, List.append_assoc, List.singleton_append, readValue, e]
      · exact ⟨_, rfl⟩
      · intro tail closed
        have refused := readItems_closeBracket (levels + 1) tail
        rw [← closed] at refused
        cases e.symm.trans refused

/-- Members between braces are read as an object. -/
private theorem reads_object {ms : List (String × Json)}
    (each : List.Forall₂ (ReadsAsMember (levels + 1)) xs ms) :
    ReadsAs (levels + 2)
      (.mark .openBrace :: (listed false xs ++ [.mark .closeBrace]))
      (.obj (Members.ofList ms)) := by
  cases each with
  | nil =>
    refine ⟨[.openBrace, .closeBrace], ?_, fun rest => ?_⟩
    · rw [tokensOf_mark (by rfl), listed, List.nil_append, tokensOf_mark (by rfl), tokensOf]
      rfl
    · rw [List.cons_append, List.cons_append, readValue]
      exact ⟨_, rfl⟩
  | cons first others =>
    obtain ⟨ts, tokens, read⟩ := reads_members (.cons first others) (List.cons_ne_nil _ _)
    refine ⟨.openBrace :: (ts ++ [.closeBrace]), ?_, fun rest => ?_⟩
    · rw [tokensOf_mark (by rfl), tokensOf_append, tokens, tokensOf_mark (by rfl), tokensOf]
      rfl
    · obtain ⟨h, e⟩ := read rest
      rw [List.cons_append, List.append_assoc, List.singleton_append, readValue, e]
      · exact ⟨_, rfl⟩
      · intro tail closed
        have refused := readMembers_closeBrace (levels + 1) tail
        rw [← closed] at refused
        cases e.symm.trans refused

end Lists

/-! ### Reading trees -/

/-- The token of a string that is spelled. -/
private theorem tokens_of_spelled? {parts : List StringPart} {s : String}
    (h : spelled? parts = some s) : tokens (Lexeme.quoted parts).text = some [.str s] := by
  rw [spelled?] at h
  split at h
  · next e =>
    cases h
    exact e
  · cases h

private theorem tokens_of_value? {word : BareWord} {v : Json} (h : word.value? = some v) :
    tokens word.1 = some [.scalar v] := by
  rw [BareWord.value?] at h
  split at h
  · next e =>
    cases h
    exact e
  · cases h

private theorem reads_token {l : Lexeme} {t : Token} {v : Json} {levels : Nat}
    (h : tokens l.text = some [t])
    (read : ∀ rest, ∃ h, readValue levels (t :: rest) = some (v, ⟨rest, h⟩)) :
    ReadsAs levels [l] v :=
  ⟨[t], by rw [tokensOf, h]; rfl, read⟩

mutual

/-- The tokens of a value are read as the value, if it is not nested too deeply. -/
theorem Tree.readsAs {v : Json} {levels : Nat} :
    ∀ {t : Tree}, t.value? = some v → t.depth < levels → ReadsAs levels (t.lexemes false) v
  | .quoted parts, value, _ => by
    obtain ⟨s, hs, rfl⟩ := Option.map_eq_some_iff.1 value
    refine reads_token (tokens_of_spelled? hs) fun rest => ?_
    rw [readValue]
    exact ⟨_, rfl⟩
  | .bare word, value, _ => by
    refine reads_token (l := .bare word) (tokens_of_value? value) fun rest => ?_
    rw [readValue]
    exact ⟨_, rfl⟩
  | .array items _, value, deep => by
    obtain ⟨vs, hv, rfl⟩ := Option.map_eq_some_iff.1 value
    rw [Tree.depth] at deep
    obtain ⟨n, rfl⟩ : ∃ n, levels = n + 2 := ⟨levels - 2, by omega⟩
    exact reads_array (Tree.reads_items hv (by omega))
  | .object members _, value, deep => by
    obtain ⟨ms, hm, rfl⟩ := Option.map_eq_some_iff.1 value
    rw [Tree.depth] at deep
    obtain ⟨n, rfl⟩ : ∃ n, levels = n + 2 := ⟨levels - 2, by omega⟩
    exact reads_object (Tree.reads_members hm (by omega))

private theorem Tree.reads_items {levels : Nat} :
    ∀ {items : List Tree} {vs : List Json}, Tree.itemValues? items = some vs →
      Tree.itemsDepth items < levels →
      List.Forall₂ (ReadsAs levels) (Tree.itemLexemes false items) vs
  | [], _, value, _ => by
    cases value
    exact .nil
  | t :: rest, _, value, deep => by
    obtain ⟨v, hv, value⟩ := Option.bind_eq_some_iff.1 value
    obtain ⟨vs, hvs, rfl⟩ := Option.map_eq_some_iff.1 value
    rw [Tree.itemsDepth] at deep
    exact .cons (Tree.readsAs hv (by omega)) (Tree.reads_items hvs (by omega))

private theorem Tree.reads_members {levels : Nat} :
    ∀ {members : List (List StringPart × Tree)} {ms : List (String × Json)},
      Tree.memberValues? members = some ms → Tree.membersDepth members < levels →
      List.Forall₂ (ReadsAsMember levels) (Tree.memberLexemes false members) ms
  | [], _, value, _ => by
    cases value
    exact .nil
  | (key, t) :: rest, _, value, deep => by
    obtain ⟨k, hk, value⟩ := Option.bind_eq_some_iff.1 value
    obtain ⟨v, hv, value⟩ := Option.bind_eq_some_iff.1 value
    obtain ⟨ms, hms, rfl⟩ := Option.map_eq_some_iff.1 value
    rw [Tree.membersDepth] at deep
    obtain ⟨ts, tokens, read⟩ := Tree.readsAs hv (show t.depth < levels by omega)
    refine .cons ⟨ts, ?_, read⟩ (Tree.reads_members hms (by omega))
    rw [tokensOf, tokens_of_spelled? hk, tokensOf_mark (by rfl), tokens]
    rfl

end

end PageIndex.Json
