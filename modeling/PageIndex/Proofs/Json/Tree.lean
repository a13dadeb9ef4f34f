import PageIndex.Json.Text
import PageIndex.Proofs.Json.Tokens

/-!
# JSON values as they are written

A JSON value can be written with a comma after the last item of any array or object that has one.
`Tree.lexemes` is what a value is written with, `Tree.renders` says that the commas are all that is
left out of it, and `Tree.exists_text` that the compact text of any value is written like this.
-/

namespace PageIndex.Json

/-- A JSON value as it is written: its scalars and names by their spellings, and whether a comma
stands after the last item of an array or the last member of an object. -/
inductive Tree where
  | quoted (parts : List StringPart)
  | bare (word : BareWord)
  | array (items : List Tree) (comma : Bool)
  | object (members : List (List StringPart × Tree)) (comma : Bool)

/-- Items with commas between them, and with one after the last if `comma` says so. -/
def listed (comma : Bool) : List (List Lexeme) → List Lexeme
  | [] => []
  | [item] => item ++ if comma then [.mark .comma] else []
  | item :: next :: rest => item ++ .mark .comma :: listed comma (next :: rest)

namespace Tree

mutual

/-- The tokens of a value, with the commas after last items that it has or without them. -/
def lexemes (trailing : Bool) : Tree → List Lexeme
  | .quoted parts => [.quoted parts]
  | .bare word => [.bare word]
  | .array items comma =>
    .mark .openBracket ::
      (listed (trailing && comma) (itemLexemes trailing items) ++ [.mark .closeBracket])
  | .object members comma =>
    .mark .openBrace ::
      (listed (trailing && comma) (memberLexemes trailing members) ++ [.mark .closeBrace])

/-- The tokens of each item of an array. -/
def itemLexemes (trailing : Bool) : List Tree → List (List Lexeme)
  | [] => []
  | t :: rest => t.lexemes trailing :: itemLexemes trailing rest

/-- The tokens of each member of an object. -/
def memberLexemes (trailing : Bool) : List (List StringPart × Tree) → List (List Lexeme)
  | [] => []
  | (key, t) :: rest =>
    (.quoted key :: .mark .colon :: t.lexemes trailing) :: memberLexemes trailing rest

end

/-- The plain text of a value: its tokens without anything between them. -/
def text (t : Tree) : List Char :=
  (t.lexemes false).flatMap Lexeme.text

end Tree

/-! ### Renderings -/

/-- Whether some lexemes are a rendering of a value that others render plainly: they differ in
commas before closing marks, they do not start with a closing mark, and each stands apart from the
next. -/
structure Renders (x y : List Lexeme) : Prop where
  prune : ∀ rest, Lexeme.prune (x ++ rest) = y ++ Lexeme.prune rest
  opens : ∀ rest, Lexeme.closesFirst (x ++ rest) = false
  apart : ∀ {rest}, rest.IsChain Lexeme.Apart → (∀ l ∈ rest.head?, l.isBare = false) →
    (x ++ rest).IsChain Lexeme.Apart

/-- A lexeme that is no comma is never left out. -/
private theorem prune_cons {l : Lexeme} (h : l.isComma = false) (rest : List Lexeme) :
    Lexeme.prune (l :: rest) = l :: Lexeme.prune rest := by
  rw [Lexeme.prune, h, Bool.false_and, if_neg Bool.false_ne_true]

/-- Next to a mark every lexeme stands apart. -/
private theorem apart_mark {m : Mark} {rest : List Lexeme} (h : rest.IsChain Lexeme.Apart) :
    (.mark m :: rest).IsChain Lexeme.Apart :=
  List.isChain_cons.2 ⟨fun _ _ bare => Bool.noConfusion bare, h⟩

private theorem renders_quoted (parts : List StringPart) :
    Renders [.quoted parts] [.quoted parts] where
  prune rest := prune_cons rfl rest
  opens _ := rfl
  apart chain _ := List.isChain_cons.2 ⟨fun _ _ bare => Bool.noConfusion bare, chain⟩

private theorem renders_bare (word : BareWord) : Renders [.bare word] [.bare word] where
  prune rest := prune_cons rfl rest
  opens _ := rfl
  apart chain next := List.isChain_cons.2 ⟨fun l hl _ => next l hl, chain⟩

private theorem Renders.member {x y : List Lexeme} (h : Renders x y) (key : List StringPart) :
    Renders (.quoted key :: .mark .colon :: x) (.quoted key :: .mark .colon :: y) where
  prune rest := by
    simp only [List.cons_append]
    rw [prune_cons rfl, prune_cons rfl, h.prune]
  opens _ := rfl
  apart chain next := (renders_quoted key).apart (apart_mark (h.apart chain next)) fun _ hl => by
    cases hl
    rfl

section Listed

variable {xs ys : List (List Lexeme)} {close : Mark} {comma : Bool} {rest : List Lexeme}

private theorem prune_listed (each : List.Forall₂ Renders xs ys)
    (closes : (Lexeme.mark close).closes = true) (noComma : (Lexeme.mark close).isComma = false) :
    Lexeme.prune (listed comma xs ++ .mark close :: rest) =
      listed false ys ++ .mark close :: Lexeme.prune rest := by
  induction each with
  | nil => exact prune_cons noComma rest
  | @cons x y xs ys first others ih =>
    cases others with
    | nil =>
      rw [listed, List.append_assoc, first.prune, listed, List.append_assoc]
      cases comma with
      | false => exact congrArg (y ++ ·) (prune_cons noComma rest)
      | true =>
        have left_out : Lexeme.prune (.mark .comma :: .mark close :: rest) =
            Lexeme.prune (.mark close :: rest) := by
          rw [Lexeme.prune, if_pos (by simpa [Lexeme.closesFirst, Lexeme.isComma] using closes)]
        exact congrArg (y ++ ·) (left_out.trans (prune_cons noComma rest))
    | @cons x' y' xs ys next others =>
      have kept (tail : List Lexeme) (h : Lexeme.closesFirst tail = false) :
          Lexeme.prune (.mark .comma :: tail) = .mark .comma :: Lexeme.prune tail := by
        rw [Lexeme.prune, h, Bool.and_false, if_neg Bool.false_ne_true]
      have opens : Lexeme.closesFirst (listed comma (x' :: xs) ++ .mark close :: rest) = false := by
        cases xs <;> rw [listed, List.append_assoc] <;> exact next.opens _
      rw [listed, List.append_assoc, first.prune, List.cons_append, kept _ opens, ih, listed,
        List.append_assoc, List.cons_append]

private theorem apart_listed (each : List.Forall₂ Renders xs ys)
    (chain : rest.IsChain Lexeme.Apart) :
    (listed comma xs ++ .mark close :: rest).IsChain Lexeme.Apart := by
  have closed : (.mark close :: rest : List Lexeme).IsChain Lexeme.Apart := apart_mark chain
  have nonBare {m : Mark} {tail : List Lexeme} :
      ∀ l ∈ (.mark m :: tail : List Lexeme).head?, l.isBare = false := fun l hl => by
    cases hl
    rfl
  induction each with
  | nil => exact closed
  | @cons x y xs ys first others ih =>
    cases others with
    | nil =>
      rw [listed, List.append_assoc]
      cases comma with
      | false => exact first.apart closed nonBare
      | true => exact first.apart (apart_mark closed) nonBare
    | cons next others =>
      rw [listed, List.append_assoc]
      exact first.apart (apart_mark ih) nonBare

/-- Between brackets renderings make a rendering. -/
private theorem renders_listed {start : Mark} (each : List.Forall₂ Renders xs ys)
    (opens : (Lexeme.mark start).closes = false ∧ (Lexeme.mark start).isComma = false)
    (closes : (Lexeme.mark close).closes = true ∧ (Lexeme.mark close).isComma = false) :
    Renders (.mark start :: (listed comma xs ++ [.mark close]))
      (.mark start :: (listed false ys ++ [.mark close])) where
  prune rest := by
    simp only [List.cons_append, List.append_assoc, List.nil_append]
    rw [prune_cons opens.2, prune_listed each closes.1 closes.2]
  opens rest := by simpa [Lexeme.closesFirst] using opens.1
  apart chain _ := by
    simp only [List.cons_append, List.append_assoc, List.nil_append]
    exact apart_mark (apart_listed each chain)

end Listed

mutual

/-- The tokens of a value are a rendering of it, with trailing commas or without them. -/
theorem Tree.renders (trailing : Bool) : ∀ t : Tree, Renders (t.lexemes trailing) (t.lexemes false)
  | .quoted parts => renders_quoted parts
  | .bare word => renders_bare word
  | .array items _ => renders_listed (Tree.renders_items trailing items) ⟨rfl, rfl⟩ ⟨rfl, rfl⟩
  | .object members _ =>
    renders_listed (Tree.renders_members trailing members) ⟨rfl, rfl⟩ ⟨rfl, rfl⟩

private theorem Tree.renders_items (trailing : Bool) :
    ∀ items : List Tree,
      List.Forall₂ Renders (Tree.itemLexemes trailing items) (Tree.itemLexemes false items)
  | [] => .nil
  | t :: rest => .cons (t.renders trailing) (Tree.renders_items trailing rest)

private theorem Tree.renders_members (trailing : Bool) :
    ∀ members : List (List StringPart × Tree),
      List.Forall₂ Renders (Tree.memberLexemes trailing members) (Tree.memberLexemes false members)
  | [] => .nil
  | (key, t) :: rest => .cons ((t.renders trailing).member key) (Tree.renders_members trailing rest)

end

/-! ### The compact text as a rendering -/

/-- Texts that are a number or a word. -/
private def IsWord (cs : List Char) : Prop :=
  cs ≠ [] ∧ ∀ c ∈ cs, isBare c = true

private theorem isWord_natText (n : Nat) : IsWord (Decimal.natText n) :=
  ⟨Nat.toDigits_ne_nil, fun _ hc =>
    isBare_of_isDigit (Nat.isDigit_of_mem_toDigits (by decide) (by decide) hc)⟩

private theorem isWord_intText (n : Int) : IsWord (Decimal.intText n) := by
  cases n with
  | ofNat n => exact isWord_natText n
  | negSucc n =>
    exact ⟨List.cons_ne_nil _ _, List.forall_mem_cons.2 ⟨by decide, (isWord_natText _).2⟩⟩

private theorem isWord_positional {ds : List Char} (h : ∀ c ∈ ds, isBare c = true)
    (exponent : Int) : IsWord (Decimal.positional doubleLayout ds exponent) := by
  have zeros (n : Nat) : ∀ c ∈ List.replicate n '0', isBare c = true := fun c hc => by
    rw [List.eq_of_mem_replicate hc]
    decide
  have suffix : ∀ c ∈ doubleLayout.wholeSuffix, isBare c = true :=
    List.all_eq_true.1 rfl
  rw [Decimal.positional]
  split
  · refine ⟨by simp [doubleLayout], ?_⟩
    simp only [List.forall_mem_append]
    exact ⟨⟨h, zeros _⟩, suffix⟩
  · dsimp only
    split
    · refine ⟨by simp, ?_⟩
      simp only [List.forall_mem_append, List.forall_mem_cons]
      exact ⟨fun c hc => h c (List.mem_of_mem_take hc), by decide,
        fun c hc => h c (List.mem_of_mem_drop hc)⟩
    · refine ⟨by simp, ?_⟩
      simp only [List.forall_mem_append, List.forall_mem_cons]
      exact ⟨by decide, by decide, zeros _, h⟩

private theorem isWord_scientific {ds : List Char} (h : ∀ c ∈ ds, isBare c = true)
    (exponent : Int) : IsWord (Decimal.scientific doubleLayout ds exponent) := by
  have mark : ∀ c ∈ doubleLayout.exponentMark, isBare c = true :=
    List.all_eq_true.1 rfl
  have digits := (isWord_natText exponent.natAbs).2
  have sign : ∀ c ∈ (if exponent < 0 then ['-'] else doubleLayout.exponentPlus),
      isBare c = true := by
    split <;> exact List.all_eq_true.1 rfl
  rw [Decimal.scientific.eq_def]
  refine ⟨by simp [doubleLayout], ?_⟩
  simp only [List.forall_mem_append]
  refine ⟨⟨⟨?_, mark⟩, sign⟩, digits⟩
  split
  · simp only [List.forall_mem_cons] at h ⊢
    exact ⟨h.1, by decide, h.2⟩
  · exact h

private theorem isWord_doubleText (x : Binary64) : IsWord (doubleText x) := by
  cases x with
  | infinite negative =>
    have null : ∀ c ∈ ['n', 'u', 'l', 'l'], isBare c = true := List.all_eq_true.1 rfl
    exact ⟨List.cons_ne_nil _ _, null⟩
  | finite negative units =>
    have number : IsWord ((Decimal.shortest units).toText doubleLayout) := by
      have digits := (isWord_natText (Decimal.shortest units).digits).2
      rw [Decimal.toText]
      split
      · exact isWord_positional digits _
      · exact isWord_scientific digits _
    cases negative with
    | false => exact number
    | true => exact ⟨List.cons_ne_nil _ _, List.forall_mem_cons.2 ⟨by decide, number.2⟩⟩

private theorem exists_parts_escape (c : Char) :
    ∃ parts : List StringPart, parts.flatMap StringPart.text = escape c := by
  have escaped (d : Char) : ∃ parts : List StringPart,
      parts.flatMap StringPart.text = ['\\', d] := ⟨[.escape d], rfl⟩
  have digit : ∀ n < 16, Text.hexDigit n ≠ '\x22' ∧ Text.hexDigit n ≠ '\\' := by decide
  rw [escape]
  split_ifs with quote solidus _ _ _ _ _ control
  · exact escaped '\x22'
  · exact escaped '\\'
  · exact escaped 'b'
  · exact escaped 'f'
  · exact escaped 'n'
  · exact escaped 'r'
  · exact escaped 't'
  · exact ⟨[.escape 'u', .plain '0' (by decide), .plain '0' (by decide),
      .plain _ (digit (c.toNat / 16) (by omega)), .plain _ (digit (c.toNat % 16) (by omega))], rfl⟩
  · exact ⟨[.plain c ⟨quote, solidus⟩], rfl⟩

private theorem exists_parts (cs : List Char) :
    ∃ parts : List StringPart, parts.flatMap StringPart.text = cs.flatMap escape := by
  induction cs with
  | nil => exact ⟨[], rfl⟩
  | cons c cs ih =>
    obtain ⟨first, hf⟩ := exists_parts_escape c
    obtain ⟨others, ho⟩ := ih
    exact ⟨first ++ others, by rw [List.flatMap_append, hf, ho, List.flatMap_cons]⟩

private theorem exists_quoted (s : String) :
    ∃ parts : List StringPart, (Lexeme.quoted parts).text = stringText s := by
  obtain ⟨parts, h⟩ := exists_parts s.toList
  exact ⟨parts, by rw [Lexeme.text, h, stringText]⟩

/-- The plain text of items with commas between them is the compact text. -/
private theorem text_listed_items {ts : List Tree} {vs : List Json}
    (each : List.Forall₂ (fun t v => t.text = compact v) ts vs) :
    (listed false (Tree.itemLexemes false ts)).flatMap Lexeme.text = compactItems vs := by
  induction each with
  | nil => rfl
  | @cons t v ts vs first others ih =>
    cases others with
    | nil => simpa [Tree.itemLexemes, listed, compactItems, Tree.text] using first
    | cons next others =>
      rw [Tree.itemLexemes, Tree.itemLexemes, listed, List.flatMap_append, List.flatMap_cons,
        compactItems, ← ih, ← first]
      rfl

/-- The plain text of members with commas between them is the compact text. -/
private theorem text_listed_members {ts : List (List StringPart × Tree)}
    {vs : List (String × Json)}
    (each : List.Forall₂ (fun t v =>
      (Lexeme.quoted t.1).text = stringText v.1 ∧ t.2.text = compact v.2) ts vs) :
    (listed false (Tree.memberLexemes false ts)).flatMap Lexeme.text = compactMembers vs := by
  induction each with
  | nil => rfl
  | @cons t v ts vs first others ih =>
    have member : (.quoted t.1 :: .mark .colon :: t.2.lexemes false : List Lexeme).flatMap
        Lexeme.text = stringText v.1 ++ ':' :: compact v.2 := by
      rw [← first.1, ← first.2]
      rfl
    cases others with
    | nil => simpa [Tree.memberLexemes, listed, compactMembers] using member
    | cons next others =>
      rw [Tree.memberLexemes, Tree.memberLexemes, listed, List.flatMap_append, member,
        List.flatMap_cons, compactMembers, ← ih]
      simp [Lexeme.text, Mark.char, Tree.memberLexemes]

mutual

/-- The compact text of a value is the plain text of a way to write it. -/
theorem Tree.exists_text : ∀ v : Json, ∃ t : Tree, t.text = compact v
  | .null => ⟨.bare ⟨['n', 'u', 'l', 'l'], by decide, List.all_eq_true.1 rfl⟩, rfl⟩
  | .bool true => ⟨.bare ⟨['t', 'r', 'u', 'e'], by decide, List.all_eq_true.1 rfl⟩, rfl⟩
  | .bool false => ⟨.bare ⟨['f', 'a', 'l', 's', 'e'], by decide, List.all_eq_true.1 rfl⟩, rfl⟩
  | .int n =>
    ⟨.bare ⟨_, isWord_intText n⟩, by simp [text, lexemes, Lexeme.text, compact, scalarText]⟩
  | .double x =>
    ⟨.bare ⟨_, isWord_doubleText x⟩, by simp [text, lexemes, Lexeme.text, compact, scalarText]⟩
  | .str s => by
    obtain ⟨parts, h⟩ := exists_quoted s
    exact ⟨.quoted parts, by simp [text, lexemes, h, compact, scalarText]⟩
  | .arr items => by
    obtain ⟨ts, h⟩ := Tree.exists_items items
    refine ⟨.array ts false, ?_⟩
    simp [text, lexemes, text_listed_items h, compact, Lexeme.text, Mark.char]
  | .obj members => by
    obtain ⟨ts, h⟩ := Tree.exists_members members
    refine ⟨.object ts false, ?_⟩
    simp [text, lexemes, text_listed_members h, compact, Lexeme.text, Mark.char]

private theorem Tree.exists_items :
    ∀ vs : List Json, ∃ ts : List Tree, List.Forall₂ (fun t v => t.text = compact v) ts vs
  | [] => ⟨[], .nil⟩
  | v :: vs => by
    obtain ⟨t, first⟩ := Tree.exists_text v
    obtain ⟨ts, others⟩ := Tree.exists_items vs
    exact ⟨t :: ts, .cons first others⟩

private theorem Tree.exists_members :
    ∀ vs : List (String × Json), ∃ ts : List (List StringPart × Tree),
      List.Forall₂ (fun t v =>
        (Lexeme.quoted t.1).text = stringText v.1 ∧ t.2.text = compact v.2) ts vs
  | [] => ⟨[], .nil⟩
  | (key, v) :: vs => by
    obtain ⟨parts, name⟩ := exists_quoted key
    obtain ⟨t, first⟩ := Tree.exists_text v
    obtain ⟨ts, others⟩ := Tree.exists_members vs
    exact ⟨(parts, t) :: ts, .cons ⟨name, first⟩ others⟩

end

end PageIndex.Json
