import PageIndex.Json.Token

/-!
# Reading JSON

The value of a list of tokens, by the grammar of JSON with a bound on how deeply arrays and
objects may be nested. Every reader returns the tokens that are left together with the fact
that there are fewer of them, which is what makes the recursion end.
-/

namespace PageIndex.Json

/-- What a reader leaves of its tokens: fewer than it was given. -/
abbrev Rest (ts : List Token) : Type :=
  { rest : List Token // rest.length < ts.length }

/-- What is left of fewer tokens is left of all of them. -/
def Rest.lift {ts us : List Token} (h : us.length < ts.length) (r : Rest us) : Rest ts :=
  ⟨r.1, Nat.lt_trans r.2 h⟩

mutual

/-- Reads one value. `levels` counts the arrays and objects that may still be opened, and one. -/
def readValue (levels : Nat) (ts : List Token) : Option (Json × Rest ts) :=
  match levels, ts with
  | _, .scalar v :: rest => some (v, ⟨rest, Nat.lt_succ_self _⟩)
  | _, .str s :: rest => some (.str s, ⟨rest, Nat.lt_succ_self _⟩)
  | _ + 2, .openBracket :: .closeBracket :: rest =>
    some (.arr [], ⟨rest, Nat.lt_add_of_pos_right Nat.zero_lt_two⟩)
  | n + 2, .openBracket :: rest =>
    match readItems (n + 1) rest with
    | none => none
    | some (items, after) => some (.arr items, after.lift (Nat.lt_succ_self _))
  | _ + 2, .openBrace :: .closeBrace :: rest =>
    some (.obj [], ⟨rest, Nat.lt_add_of_pos_right Nat.zero_lt_two⟩)
  | n + 2, .openBrace :: rest =>
    match readMembers (n + 1) rest with
    | none => none
    | some (members, after) =>
      some (.obj (Members.ofList members), after.lift (Nat.lt_succ_self _))
  | _, _ => none
termination_by (ts.length, 0)

/-- Reads the items of an array that is not empty, up to its closing bracket. -/
def readItems (levels : Nat) (ts : List Token) : Option (List Json × Rest ts) :=
  match readValue levels ts with
  | none => none
  | some (v, ⟨.closeBracket :: after, h⟩) => some ([v], ⟨after, Nat.lt_of_succ_lt h⟩)
  | some (v, ⟨.comma :: after, h⟩) =>
    match readItems levels after with
    | none => none
    | some (items, rest) =>
      some (v :: items, rest.lift (Nat.lt_of_succ_lt h))
  | some _ => none
termination_by (ts.length, 1)
decreasing_by
  · exact Prod.Lex.right _ (by omega)
  · exact Prod.Lex.left _ _ (Nat.lt_of_succ_lt h)

/-- Reads the members of an object that is not empty, up to its closing brace. -/
def readMembers (levels : Nat) (ts : List Token) : Option (List (String × Json) × Rest ts) :=
  match ts with
  | .str key :: .colon :: value =>
    match readValue levels value with
    | none => none
    | some (v, ⟨.closeBrace :: after, h⟩) =>
      some ([(key, v)], ⟨after, Nat.lt_add_right 2 (Nat.lt_of_succ_lt h)⟩)
    | some (v, ⟨.comma :: after, h⟩) =>
      match readMembers levels after with
      | none => none
      | some (members, rest) =>
        some ((key, v) :: members, rest.lift (Nat.lt_add_right 2 (Nat.lt_of_succ_lt h)))
    | some _ => none
  | _ => none
termination_by (ts.length, 1)
decreasing_by
  · exact Prod.Lex.left _ _ (Nat.lt_add_of_pos_right Nat.zero_lt_two)
  · exact Prod.Lex.left _ _ (Nat.lt_add_right 2 (Nat.lt_of_succ_lt h))

end

/-- The value of a text that holds exactly one, with fewer than `levels` arrays and objects
inside one another. -/
def parse? (levels : Nat) (text : List Char) : Option Json :=
  match tokens text with
  | none => none
  | some ts =>
    match readValue levels ts with
    | some (v, ⟨[], _⟩) => some v
    | _ => none

end PageIndex.Json
