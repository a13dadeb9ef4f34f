import PageIndex.Json.Reader
import PageIndex.Proofs.Members

/-!
# Values with all that was written

A raw value has every member of its objects that was written, also those whose name was given
again. A text that is read as a value has the tokens of a raw value with that value (`exists_raw`),
and what an object has under a name is what was written last under it
(`Raw.IsPlain.exists_member?`).
-/

namespace PageIndex.Json

/-! ### Plain tokens -/

/-- Whether a token is no object by itself, as no token is that is cut from a text. -/
def Token.IsPlain : Token → Prop
  | .scalar v => v.obj? = none
  | _ => True

private theorem isPlain_markToken? {c : Char} {t : Token} (h : markToken? c = some t) :
    t.IsPlain := by
  unfold markToken? at h
  grind [Token.IsPlain]

private theorem obj?_value? {p : NumberParts} {v : Json} (h : p.value? = some v) :
    v.obj? = none := by
  have double {x : Option Binary64} (h : x.map Json.double = some v) : v.obj? = none := by
    obtain ⟨x, -, rfl⟩ := Option.map_eq_some_iff.1 h
    rfl
  unfold NumberParts.value? at h
  dsimp only at h
  split at h
  · split at h <;> split at h
    · cases h
      rfl
    · exact double h
    · cases h
      rfl
    · exact double h
  · exact double h

private theorem isPlain_cutToken {cs rest : List Char} {t : Token}
    (h : cutToken cs = some (t, rest)) : t.IsPlain := by
  unfold cutToken at h
  split at h
  · cases h
    rfl
  · cases h
    rfl
  · cases h
    rfl
  · obtain ⟨r, -, cut⟩ := Option.map_eq_some_iff.1 h
    cases cut
    trivial
  · obtain ⟨⟨parts, after⟩, -, h⟩ := Option.bind_eq_some_iff.1 h
    obtain ⟨v, number, h⟩ := Option.bind_eq_some_iff.1 h
    cases h
    exact obj?_value? number

/-- The tokens of a text are plain. -/
theorem isPlain_of_tokens {text : List Char} {ts : List Token} (h : tokens text = some ts) :
    ∀ t ∈ ts, t.IsPlain := by
  fun_induction tokens text generalizing ts with
  | case1 =>
    cases h
    exact List.forall_mem_nil _
  | case2 c cs space ih => exact ih h
  | case3 c cs space t mark ih =>
    obtain ⟨more, lexed, rfl⟩ := Option.map_eq_some_iff.1 h
    exact List.forall_mem_cons.2 ⟨isPlain_markToken? mark, ih lexed⟩
  | case4 => cases h
  | case5 c cs space mark t rest cut ih =>
    obtain ⟨more, lexed, rfl⟩ := Option.map_eq_some_iff.1 h
    exact List.forall_mem_cons.2 ⟨isPlain_cutToken cut, ih lexed⟩

/-! ### Raw values -/

/-- A JSON value with all members of its objects as they were written. -/
inductive Raw where
  | scalar (v : Json)
  | str (s : String)
  | array (items : List Raw)
  | object (members : List (String × Raw))

namespace Raw

mutual

/-- The tokens of a raw value. -/
def tokens : Raw → List Token
  | .scalar v => [.scalar v]
  | .str s => [.str s]
  | .array items => .openBracket :: (itemTokens items ++ [.closeBracket])
  | .object members => .openBrace :: (memberTokens members ++ [.closeBrace])

/-- Items with commas between them. -/
def itemTokens : List Raw → List Token
  | [] => []
  | [r] => r.tokens
  | r :: next :: rest => r.tokens ++ .comma :: itemTokens (next :: rest)

/-- Members with commas between them. -/
def memberTokens : List (String × Raw) → List Token
  | [] => []
  | [(key, r)] => .str key :: .colon :: r.tokens
  | (key, r) :: next :: rest =>
    .str key :: .colon :: (r.tokens ++ .comma :: memberTokens (next :: rest))

end

mutual

/-- The value, in which each name of an object stands once. -/
def value : Raw → Json
  | .scalar v => v
  | .str s => .str s
  | .array items => .arr (itemValues items)
  | .object members => .obj (Members.ofList (memberValues members))

/-- The values of items. -/
def itemValues : List Raw → List Json
  | [] => []
  | r :: rest => r.value :: itemValues rest

/-- The names and values of members, as they were written. -/
def memberValues : List (String × Raw) → List (String × Json)
  | [] => []
  | (key, r) :: rest => (key, r.value) :: memberValues rest

end

/-- The member that was written last under a name. -/
def member? (key : String) : Raw → Option Raw
  | .object members => (members.reverse.find? (·.1 == key)).map (·.2)
  | _ => none

/-- The names and values of members one by one. -/
theorem memberValues_eq_map (members : List (String × Raw)) :
    memberValues members = members.map fun m => (m.1, m.2.value) := by
  induction members with
  | nil => rfl
  | cons m rest ih => rw [memberValues, ih, List.map_cons]

/-- An item that is not the last one has a comma after it. -/
theorem itemTokens_cons (r : Raw) {rest : List Raw} (more : rest ≠ []) :
    itemTokens (r :: rest) = r.tokens ++ .comma :: itemTokens rest := by
  obtain ⟨next, rest, rfl⟩ := List.exists_cons_of_ne_nil more
  rw [itemTokens]

/-- A member that is not the last one has a comma after it. -/
theorem memberTokens_cons (key : String) (r : Raw) {rest : List (String × Raw)}
    (more : rest ≠ []) :
    memberTokens ((key, r) :: rest) =
      .str key :: .colon :: (r.tokens ++ .comma :: memberTokens rest) := by
  obtain ⟨next, rest, rfl⟩ := List.exists_cons_of_ne_nil more
  rw [memberTokens]

/-- The tokens of a member are among those of all members. -/
theorem tokens_subset_memberTokens {members : List (String × Raw)} {m : String × Raw}
    (h : m ∈ members) : m.2.tokens ⊆ memberTokens members := by
  induction members with
  | nil => cases h
  | cons first rest ih =>
    obtain ⟨key, r⟩ := first
    intro t ht
    cases rest with
    | nil =>
      cases List.mem_singleton.1 h
      exact List.mem_cons_of_mem _ (List.mem_cons_of_mem _ ht)
    | cons next rest =>
      rw [memberTokens_cons key r (List.cons_ne_nil _ _)]
      refine List.mem_cons_of_mem _ (List.mem_cons_of_mem _ (List.mem_append.2 ?_))
      rcases List.mem_cons.1 h with rfl | hm
      · exact .inl ht
      · exact .inr (List.mem_cons_of_mem _ (ih hm ht))

/-- The tokens of the member under a name are among the tokens of the value. -/
theorem tokens_member? {r m : Raw} {key : String} (h : r.member? key = some m) :
    m.tokens ⊆ r.tokens := by
  cases r with
  | object members =>
    obtain ⟨named, found, rfl⟩ := Option.map_eq_some_iff.1 h
    have listed : named ∈ members := List.mem_reverse.1 (List.mem_of_find?_eq_some found)
    rw [tokens]
    exact fun t ht => List.mem_cons_of_mem _
      (List.mem_append_left _ (tokens_subset_memberTokens listed ht))
  | _ => cases h

/-- Whether a raw value can be written: all its tokens are plain. -/
def IsPlain (r : Raw) : Prop :=
  ∀ t ∈ r.tokens, t.IsPlain

/-- A member of a value that can be written can be written, too. -/
theorem IsPlain.member? {r m : Raw} {key : String} (plain : r.IsPlain)
    (h : r.member? key = some m) : m.IsPlain :=
  fun t ht => plain t (tokens_member? h ht)

/-- Under a name of a value is what was written last under it. -/
theorem IsPlain.exists_member? {r : Raw} (plain : r.IsPlain) {key : String} {v : Json}
    (h : r.value.get? key = some v) : ∃ m, r.member? key = some m ∧ m.value = v := by
  cases r with
  | scalar s =>
    have noObject : s.obj? = none := plain _ List.mem_cons_self
    cases s with
    | obj ms => cases noObject
    | _ => cases h
  | str s => cases h
  | array items => cases h
  | object members =>
    rw [value, Json.get?, Members.lookup_ofList, memberValues_eq_map, ← List.map_reverse,
      List.find?_map, Option.map_map] at h
    obtain ⟨m, found, rfl⟩ := Option.map_eq_some_iff.1 h
    exact ⟨m.2, Option.map_eq_some_iff.2 ⟨m, found, rfl⟩, rfl⟩

/-- A raw value whose value is an object has its members. -/
theorem IsPlain.eq_object {r : Raw} (plain : r.IsPlain) {ms : List (String × Json)}
    (h : r.value = .obj ms) :
    ∃ members, r = .object members ∧ Members.ofList (memberValues members) = ms := by
  cases r with
  | scalar s =>
    have noObject : s.obj? = none := plain _ List.mem_cons_self
    rw [show s = .obj ms from h] at noObject
    cases noObject
  | object members => exact ⟨members, rfl, Json.obj.inj h⟩
  | _ => cases h

end Raw

/-! ### Reading -/

mutual

/-- What is read as a value are the tokens of a raw value. -/
theorem exists_raw_of_readValue {levels : Nat} {ts : List Token} {v : Json} {rest : Rest ts}
    (h : readValue levels ts = some (v, rest)) :
    ∃ r : Raw, ts = r.tokens ++ rest.1 ∧ r.value = v := by
  unfold readValue at h
  split at h
  · cases h
    exact ⟨.scalar _, rfl, rfl⟩
  · cases h
    exact ⟨.str _, rfl, rfl⟩
  · cases h
    exact ⟨.array [], rfl, rfl⟩
  · split at h
    · cases h
    · next read =>
      cases h
      obtain ⟨items, spelled, rfl, -⟩ := exists_raw_of_readItems read
      refine ⟨.array items, ?_, rfl⟩
      rw [Raw.tokens, List.cons_append, List.append_assoc]
      exact congrArg (.openBracket :: ·) spelled
  · cases h
    exact ⟨.object [], rfl, rfl⟩
  · split at h
    · cases h
    · next read =>
      cases h
      obtain ⟨members, spelled, rfl, -⟩ := exists_raw_of_readMembers read
      refine ⟨.object members, ?_, rfl⟩
      rw [Raw.tokens, List.cons_append, List.append_assoc]
      exact congrArg (.openBrace :: ·) spelled
  · cases h
termination_by (ts.length, 0)

/-- What is read as items are the tokens of raw values, of which there is one. -/
theorem exists_raw_of_readItems {levels : Nat} {ts : List Token} {vs : List Json} {rest : Rest ts}
    (h : readItems levels ts = some (vs, rest)) :
    ∃ items : List Raw, ts = Raw.itemTokens items ++ .closeBracket :: rest.1 ∧
      Raw.itemValues items = vs ∧ items ≠ [] := by
  unfold readItems at h
  split at h
  · cases h
  · next first =>
    cases h
    obtain ⟨r, spelled, rfl⟩ := exists_raw_of_readValue first
    exact ⟨[r], spelled, rfl, List.cons_ne_nil _ _⟩
  · next first =>
    split at h
    · cases h
    · next others =>
      cases h
      obtain ⟨r, spelled, rfl⟩ := exists_raw_of_readValue first
      obtain ⟨items, more, rfl, nonempty⟩ := exists_raw_of_readItems others
      refine ⟨r :: items, ?_, rfl, List.cons_ne_nil _ _⟩
      rw [Raw.itemTokens_cons r nonempty, List.append_assoc]
      exact spelled.trans (congrArg (r.tokens ++ .comma :: ·) more)
  · cases h
termination_by (ts.length, 1)
decreasing_by
  · exact Prod.Lex.right _ Nat.zero_lt_one
  · exact Prod.Lex.right _ Nat.zero_lt_one
  · exact Prod.Lex.left _ _ (Nat.lt_of_succ_lt ‹_›)

/-- What is read as members are the tokens of named raw values, of which there is one. -/
theorem exists_raw_of_readMembers {levels : Nat} {ts : List Token} {ms : List (String × Json)}
    {rest : Rest ts} (h : readMembers levels ts = some (ms, rest)) :
    ∃ members : List (String × Raw), ts = Raw.memberTokens members ++ .closeBrace :: rest.1 ∧
      Raw.memberValues members = ms ∧ members ≠ [] := by
  unfold readMembers at h
  split at h
  · next key tail =>
    split at h
    · cases h
    · next first =>
      cases h
      obtain ⟨r, spelled, rfl⟩ := exists_raw_of_readValue first
      exact ⟨[(key, r)], congrArg (.str key :: .colon :: ·) spelled, rfl, List.cons_ne_nil _ _⟩
    · next first =>
      split at h
      · cases h
      · next others =>
        cases h
        obtain ⟨r, spelled, rfl⟩ := exists_raw_of_readValue first
        obtain ⟨members, more, rfl, nonempty⟩ := exists_raw_of_readMembers others
        refine ⟨(key, r) :: members, ?_, rfl, List.cons_ne_nil _ _⟩
        rw [Raw.memberTokens_cons key r nonempty]
        simp only [List.cons_append, List.append_assoc]
        exact congrArg (.str key :: .colon :: ·)
          (spelled.trans (congrArg (r.tokens ++ .comma :: ·) more))
    · cases h
  · cases h
termination_by (ts.length, 1)
decreasing_by
  all_goals subst ‹ts = _›
  · exact Prod.Lex.left _ _ (Nat.lt_add_of_pos_right Nat.zero_lt_two)
  · exact Prod.Lex.left _ _ (Nat.lt_add_of_pos_right Nat.zero_lt_two)
  · exact Prod.Lex.left _ _ (Nat.lt_add_right 2 (Nat.lt_of_succ_lt ‹_›))

end

/-- A text that is read as a value has the tokens of a raw value with that value. -/
theorem exists_raw {levels : Nat} {text : List Char} {v : Json}
    (h : parse? levels text = some v) :
    ∃ r : Raw, Json.tokens text = some r.tokens ∧ r.IsPlain ∧ r.value = v := by
  unfold parse? at h
  split at h
  · cases h
  · next ts lexed =>
    split at h
    · next read =>
      cases h
      obtain ⟨r, spelled, value⟩ := exists_raw_of_readValue read
      rw [List.append_nil] at spelled
      subst spelled
      exact ⟨r, lexed, isPlain_of_tokens lexed, value⟩
    · cases h

end PageIndex.Json
