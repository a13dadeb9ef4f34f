/-!
# The order of texts

Texts in the order of the scalar values of their characters, which is the order of the bytes of
their UTF-8 forms (`utf8_lt_iff`). A proper beginning of a text stands before it.
-/

namespace PageIndex.Text

/-- Whether `s` stands before `t` or is `t`. -/
def before : (s t : List Char) → Bool
  | [], _ => true
  | _ :: _, [] => false
  | c :: s, d :: t => c.toNat < d.toNat || (c == d && before s t)

/-- Of two texts one stands before the other or is it. -/
theorem before_total (s t : List Char) : before s t = true ∨ before t s = true := by
  induction s generalizing t with
  | nil => exact Or.inl rfl
  | cons c s ih =>
    cases t with
    | nil => exact Or.inr rfl
    | cons d t =>
      by_cases h : c = d
      · subst h
        rcases ih t with h | h <;> simp [before, h]
      · have : c.toNat ≠ d.toNat := fun e => h (Char.toNat_inj.1 e)
        rcases Nat.lt_or_gt_of_ne this with hlt | hlt <;> simp [before, hlt]

/-- Texts that stand before each other are the same. -/
theorem before_antisymm {s t : List Char} (h : before s t = true) (h' : before t s = true) :
    s = t := by
  induction s generalizing t with
  | nil =>
    cases t with
    | nil => rfl
    | cons d t => cases h'
  | cons c s ih =>
    cases t with
    | nil => cases h
    | cons d t =>
      simp only [before, Bool.or_eq_true, Bool.and_eq_true, decide_eq_true_eq, beq_iff_eq] at h h'
      rcases h with hlt | ⟨rfl, hs⟩
      · rcases h' with hgt | ⟨rfl, -⟩ <;> omega
      · rcases h' with hgt | ⟨-, ht⟩
        · omega
        · rw [ih hs ht]

/-- What stands before a text stands before all that it stands before. -/
theorem before_trans {s t u : List Char} (h : before s t = true) (h' : before t u = true) :
    before s u = true := by
  induction s generalizing t u with
  | nil => rfl
  | cons c s ih =>
    cases t with
    | nil => cases h
    | cons d t =>
      cases u with
      | nil => cases h'
      | cons e u =>
        simp only [before, Bool.or_eq_true, Bool.and_eq_true, decide_eq_true_eq, beq_iff_eq]
          at h h' ⊢
        rcases h with hlt | ⟨rfl, hs⟩
        · rcases h' with hlt' | ⟨rfl, -⟩ <;> exact .inl (by omega)
        · rcases h' with hlt' | ⟨rfl, ht⟩
          · exact .inl hlt'
          · exact .inr ⟨rfl, ih hs ht⟩

/-- The bytes of the UTF-8 form of a text. -/
def utf8 (s : List Char) : List UInt8 :=
  s.flatMap String.utf8EncodeChar

private theorem toNat_lt (c : Char) : c.val.toNat < 0x110000 := by
  rcases c.valid with h | ⟨-, h⟩
  · exact Nat.lt_trans h (by decide)
  · exact h

private theorem byte_lt_iff {m n : Nat} (hm : m < 256) (hn : n < 256) :
    UInt8.ofNat m < UInt8.ofNat n ↔ m < n := by
  rw [UInt8.lt_iff_toNat_lt, UInt8.toNat_ofNat', UInt8.toNat_ofNat', Nat.mod_eq_of_lt hm,
    Nat.mod_eq_of_lt hn]

private theorem byte_eq_iff {m n : Nat} (hm : m < 256) (hn : n < 256) :
    UInt8.ofNat m = UInt8.ofNat n ↔ m = n := by
  rw [← UInt8.toNat_inj, UInt8.toNat_ofNat', UInt8.toNat_ofNat', Nat.mod_eq_of_lt hm,
    Nat.mod_eq_of_lt hn]

/-- The bytes of different characters decide about the order, whatever follows them. -/
theorem utf8EncodeChar_append_lt {c d : Char} (h : c.toNat < d.toNat) (x y : List UInt8) :
    String.utf8EncodeChar c ++ x < String.utf8EncodeChar d ++ y := by
  have bound := toNat_lt d
  change c.val.toNat < d.val.toNat at h
  simp only [String.utf8EncodeChar]
  generalize c.val.toNat = m at h ⊢
  generalize d.val.toNat = n at h bound ⊢
  -- All bytes after the first are digits to the base 64.
  have digits (k : Nat) : k / 4096 = k / 64 / 64 ∧ k / 262144 = k / 64 / 64 / 64 := by omega
  rw [(digits m).1, (digits m).2, (digits n).1, (digits n).2]
  repeat' split
  all_goals simp (disch := omega) only [List.cons_append, List.nil_append, List.cons_lt_cons_iff,
    byte_lt_iff, byte_eq_iff]
  all_goals omega

private theorem utf8_lt_of_before {s t : List Char} (h : before s t = true) (ne : s ≠ t) :
    utf8 s < utf8 t := by
  induction s generalizing t with
  | nil =>
    cases t with
    | nil => exact absurd rfl ne
    | cons d t =>
      have some_byte : utf8 (d :: t) ≠ [] := by
        simp only [utf8, List.flatMap_cons, String.utf8EncodeChar]
        repeat' split
        all_goals exact List.cons_ne_nil _ _
      obtain ⟨byte, rest, hb⟩ := List.exists_cons_of_ne_nil some_byte
      rw [hb]
      exact List.Lex.nil
  | cons c s ih =>
    cases t with
    | nil => cases h
    | cons d t =>
      simp only [before, Bool.or_eq_true, Bool.and_eq_true, decide_eq_true_eq, beq_iff_eq] at h
      simp only [utf8, List.flatMap_cons]
      rcases h with hlt | ⟨rfl, hs⟩
      · exact utf8EncodeChar_append_lt hlt _ _
      · exact List.append_left_lt (ih hs fun e => ne (e ▸ rfl))

/-- The bytes of one text stand before those of another exactly when the texts do. -/
theorem utf8_lt_iff {s t : List Char} : utf8 s < utf8 t ↔ before s t = true ∧ s ≠ t := by
  constructor
  · intro h
    have ne : s ≠ t := by
      rintro rfl
      exact List.lt_irrefl _ h
    refine ⟨(before_total s t).resolve_right fun later => ?_, ne⟩
    exact List.lt_asymm h (utf8_lt_of_before later ne.symm)
  · rintro ⟨h, ne⟩
    exact utf8_lt_of_before h ne

end PageIndex.Text
