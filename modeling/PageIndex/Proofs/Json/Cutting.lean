import PageIndex.Json.Token
import PageIndex.Proofs.Json.Layout

/-!
# Cutting numbers and words

A number or a word is cut off a text at its end: what follows it is not looked at as long as it does
not go on with such a token. `Local` says this of each of the ways to cut a part of a number, and
`cutToken_append` of the whole.
-/

namespace PageIndex.Json

/-- Whether no number or word goes on at the start of a text. -/
def Separate (cs : List Char) : Prop :=
  ∀ c ∈ cs.head?, isBare c = false

/-- A way to cut something from the start of a text, when it looks no further than a number or a
word goes. -/
structure Local {α : Type} (cut : List Char → Option (α × List Char)) : Prop where
  append : ∀ cs {rest}, Separate rest → cut (cs ++ rest) = (cut cs).map fun r => (r.1, r.2 ++ rest)
  suffix : ∀ {cs a rest}, cut cs = some (a, rest) → rest <:+ cs

/-- Cutting two things one after the other looks no further than each of them. -/
theorem Local.bind {α β : Type} {cut : List Char → Option (α × List Char)}
    {next : α → List Char → Option (β × List Char)} (first : Local cut)
    (second : ∀ a, Local (next a)) : Local fun cs => (cut cs).bind fun r => next r.1 r.2 where
  append cs rest h := by
    rw [first.append cs h]
    cases cut cs with
    | none => rfl
    | some r => exact (second r.1).append r.2 h
  suffix h := by
    obtain ⟨⟨a, rest⟩, hf, hs⟩ := Option.bind_eq_some_iff.1 h
    exact ((second a).suffix hs).trans (first.suffix hf)

/-- A digit is a character of a number. -/
theorem isBare_of_isDigit {c : Char} (h : c.isDigit = true) : isBare c = true := by
  have blank : Text.isBlank c = false := by
    simp only [Char.isDigit, Bool.and_eq_true, decide_eq_true_eq, UInt32.le_iff_toNat_le] at h
    have least : 48 ≤ c.toNat := h.1
    have greatest : c.toNat ≤ 57 := h.2
    simp only [Text.isBlank, Text.inRanges, Text.blankRanges, List.any_cons, List.any_nil,
      Bool.or_eq_false_iff, Bool.and_eq_false_iff, decide_eq_false_iff_not, and_true]
    omega
  refine isBare_iff.2 ⟨blank, ?_⟩
  refine ⟨?_, ?_, ?_, ?_, ?_, ?_, ?_, ?_⟩ <;> exact ne_of_kind h (by decide)

/-- No digit stands at the start of a text that is set apart. -/
private theorem Separate.not_isDigit {c : Char} {cs : List Char} (h : Separate (c :: cs)) :
    c.isDigit = false :=
  Bool.eq_false_iff.2 fun digit => Bool.noConfusion ((isBare_of_isDigit digit).symm.trans (h c rfl))

/-- A text that is set apart starts with no character of a number or a word. -/
private theorem Separate.ne {c d : Char} {cs : List Char} (h : Separate (c :: cs))
    (hd : isBare d = true) : c ≠ d :=
  (ne_of_kind hd (h c rfl)).symm

private theorem takeWhile_isDigit_append (cs : List Char) {rest : List Char} (h : Separate rest) :
    (cs ++ rest).takeWhile Char.isDigit = cs.takeWhile Char.isDigit ∧
      (cs ++ rest).dropWhile Char.isDigit = cs.dropWhile Char.isDigit ++ rest := by
  induction cs with
  | nil =>
    cases rest with
    | nil => simp
    | cons c rest => simp [h.not_isDigit]
  | cons c cs ih =>
    cases hc : c.isDigit <;> simp [hc, ih]

private theorem local_cutDigits : Local cutDigits where
  append cs rest h := by
    obtain ⟨taken, left⟩ := takeWhile_isDigit_append cs h
    rw [cutDigits, cutDigits, taken, left]
    split <;> rfl
  suffix h := by
    rw [cutDigits] at h
    split at h
    · cases h
    · cases h
      exact List.dropWhile_suffix _

private theorem local_cutWhole : Local cutWhole where
  append cs rest h := by
    cases cs with
    | nil =>
      cases rest with
      | nil => rfl
      | cons c rest =>
        have zero : c ≠ '0' := h.ne (by decide)
        have noDigits : cutDigits (c :: rest) = none := by simp [cutDigits, h.not_isDigit]
        rw [List.nil_append, cutWhole, noDigits]
        · rfl
        · simp [zero]
    | cons c cs =>
      by_cases zero : c = '0'
      · subst zero
        rfl
      · rw [List.cons_append, cutWhole, cutWhole, ← List.cons_append]
        · exact local_cutDigits.append (c :: cs) h
        · simp [zero]
        · simp [zero]
  suffix h := by
    rw [cutWhole.eq_def] at h
    split at h
    · cases h
      exact List.suffix_cons _ _
    · exact local_cutDigits.suffix h

private theorem local_cutFraction : Local cutFraction where
  append cs rest h := by
    cases cs with
    | nil =>
      cases rest with
      | nil => rfl
      | cons c rest =>
        have point : c ≠ '.' := h.ne (by decide)
        rw [List.nil_append, cutFraction, cutFraction]
        · rfl
        · simp
        · simp [point]
    | cons c cs =>
      by_cases point : c = '.'
      · subst point
        rw [List.cons_append, cutFraction, cutFraction, local_cutDigits.append cs h]
        simp [Function.comp_def]
      · rw [List.cons_append, cutFraction, cutFraction]
        · rfl
        · simp [point]
        · simp [point]
  suffix h := by
    rw [cutFraction.eq_def] at h
    split at h
    · obtain ⟨r, hr, he⟩ := Option.map_eq_some_iff.1 h
      cases he
      exact (local_cutDigits.suffix hr).trans (List.suffix_cons _ _)
    · cases h
      exact List.suffix_rfl

/-- The sign of an exponent is cut without a look at what follows. -/
private theorem cutSign_append (cs : List Char) {rest : List Char} (h : Separate rest) :
    cutSign (cs ++ rest) = ((cutSign cs).1, (cutSign cs).2 ++ rest) := by
  cases cs with
  | nil =>
    cases rest with
    | nil => rfl
    | cons c rest =>
      have minus : c ≠ '-' := h.ne (by decide)
      have plus : c ≠ '+' := h.ne (by decide)
      simp [cutSign, minus, plus]
  | cons c cs =>
    by_cases minus : c = '-'
    · subst minus
      rfl
    · by_cases plus : c = '+'
      · subst plus
        rfl
      · simp [cutSign, minus, plus]

private theorem cutSign_suffix (cs : List Char) : (cutSign cs).2 <:+ cs := by
  rw [cutSign.eq_def]
  split
  · exact List.suffix_cons _ _
  · exact List.suffix_cons _ _
  · exact List.suffix_rfl

private theorem local_cutExponent : Local cutExponent where
  append cs rest h := by
    cases cs with
    | nil =>
      cases rest with
      | nil => rfl
      | cons c rest =>
        have small : c ≠ 'e' := h.ne (by decide)
        have capital : c ≠ 'E' := h.ne (by decide)
        simp [cutExponent, small, capital]
    | cons c cs =>
      rw [List.cons_append, cutExponent, cutExponent, cutSign_append cs h]
      split
      · rw [local_cutDigits.append _ h, Option.map_map, Option.map_map]
        rfl
      · rfl
  suffix h := by
    rw [cutExponent.eq_def] at h
    split at h
    · cases h
      exact List.suffix_rfl
    · split at h
      · obtain ⟨r, hr, he⟩ := Option.map_eq_some_iff.1 h
        cases he
        exact (local_cutDigits.suffix hr).trans
          ((cutSign_suffix _).trans (List.suffix_cons _ _))
      · cases h
        exact List.suffix_rfl

private theorem local_cutUnsigned (negative : Bool) : Local (cutUnsigned negative) := by
  have exact_end (whole : List Char) (fraction : Option (List Char))
      (exponent : Option (Bool × List Char)) : Local fun cs =>
      some ((⟨negative, whole, fraction, exponent⟩ : NumberParts), cs) :=
    ⟨fun _ _ _ => rfl, fun h => by cases h; exact List.suffix_rfl⟩
  exact local_cutWhole.bind fun whole => local_cutFraction.bind fun fraction =>
    local_cutExponent.bind (exact_end whole fraction)

/-- A number is cut at its end. -/
theorem local_cutNumber : Local cutNumber where
  append cs rest h := by
    cases cs with
    | nil =>
      cases rest with
      | nil => rfl
      | cons c rest =>
        have minus : c ≠ '-' := h.ne (by decide)
        rw [List.nil_append, cutNumber, cutNumber]
        · exact (local_cutUnsigned false).append [] h
        · simp
        · simp [minus]
    | cons c cs =>
      by_cases minus : c = '-'
      · subst minus
        exact (local_cutUnsigned true).append cs h
      · rw [List.cons_append, cutNumber, cutNumber, ← List.cons_append]
        · exact (local_cutUnsigned false).append (c :: cs) h
        · simp [minus]
        · simp [minus]
  suffix h := by
    rw [cutNumber.eq_def] at h
    split at h
    · exact ((local_cutUnsigned true).suffix h).trans (List.suffix_cons _ _)
    · exact (local_cutUnsigned false).suffix h

/-! ### Tokens -/

/-- Cuts a number and takes its value. -/
private def cutNumberToken (cs : List Char) : Option (Token × List Char) :=
  (cutNumber cs).bind fun r => r.1.value?.bind fun v => some (.scalar v, r.2)

private theorem local_cutNumberToken : Local cutNumberToken := by
  have value (parts : NumberParts) :
      Local fun cs => parts.value?.bind fun v => some (Token.scalar v, cs) := by
    refine ⟨fun cs rest _ => ?_, fun h => ?_⟩
    · cases parts.value? <;> rfl
    · obtain ⟨v, -, h⟩ := Option.bind_eq_some_iff.1 h
      cases h
      exact List.suffix_rfl
  exact local_cutNumber.bind value

/-- A word at the start of a text stands before what is set apart from it. -/
private theorem Separate.exists_append {cs rest tail : List Char} (h : Separate rest)
    (word : List Char) (bare : ∀ c ∈ word, isBare c = true) (e : cs ++ rest = word ++ tail) :
    ∃ tail', cs = word ++ tail' := by
  rcases List.append_eq_append_iff.1 e with ⟨left, rfl, hr⟩ | ⟨tail', rfl, -⟩
  · cases left with
    | nil => exact ⟨[], by simp⟩
    | cons c left =>
      subst hr
      exact Bool.noConfusion ((bare c (by simp)).symm.trans (h c rfl))
  · exact ⟨tail', rfl⟩

/-- What is cut off a number or a word does not depend on what follows it. -/
theorem cutToken_append {cs rest : List Char} (filled : cs ≠ [])
    (bare : ∀ c ∈ cs, isBare c = true) (h : Separate rest) :
    cutToken (cs ++ rest) = (cutToken cs).map fun r => (r.1, r.2 ++ rest) := by
  rw [cutToken.eq_def cs]
  split
  · rfl
  · rfl
  · rfl
  · cases bare '\x22' (by simp)
  · next isTrue isFalse isNull quote =>
    rw [cutToken]
    · exact local_cutNumberToken.append cs h
    · intro tail e
      obtain ⟨tail', rfl⟩ := h.exists_append ['t', 'r', 'u', 'e'] (List.all_eq_true.1 rfl) e
      exact isTrue tail' rfl
    · intro tail e
      obtain ⟨tail', rfl⟩ := h.exists_append ['f', 'a', 'l', 's', 'e'] (List.all_eq_true.1 rfl) e
      exact isFalse tail' rfl
    · intro tail e
      obtain ⟨tail', rfl⟩ := h.exists_append ['n', 'u', 'l', 'l'] (List.all_eq_true.1 rfl) e
      exact isNull tail' rfl
    · intro tail e
      obtain ⟨c, cs, rfl⟩ := List.exists_cons_of_ne_nil filled
      obtain ⟨rfl, -⟩ := List.cons.inj e
      exact quote cs rfl

/-- What is left after a number or a word is the end of it. -/
theorem cutToken_suffix {cs rest : List Char} {t : Token}
    (bare : ∀ c ∈ cs, isBare c = true) (h : cutToken cs = some (t, rest)) : rest <:+ cs := by
  rw [cutToken.eq_def] at h
  split at h
  · next tail => cases h; exact List.suffix_append ['t', 'r', 'u', 'e'] _
  · next tail => cases h; exact List.suffix_append ['f', 'a', 'l', 's', 'e'] _
  · next tail => cases h; exact List.suffix_append ['n', 'u', 'l', 'l'] _
  · cases bare '\x22' (by simp)
  · exact local_cutNumberToken.suffix h

end PageIndex.Json
