import Mathlib.Data.List.TakeWhile
import PageIndex.Text.Blank

/-!
# Texts without blanks at their ends

A text is made of what is left when it is trimmed and the blanks around that. This says what
trimming does without going through the text (`trim_eq_iff`): what is left is known from any way to
write the text as blanks, a text that has no blank at its ends, and blanks again.
-/

namespace PageIndex.Text

/-- Whether a text is made of blanks only. -/
def AllBlank (s : List Char) : Prop :=
  ∀ c ∈ s, isBlank c = true

/-- Whether a text has no blank at its two ends. -/
def IsTrimmed (s : List Char) : Prop :=
  (∀ c ∈ s.head?, isBlank c = false) ∧ ∀ c ∈ s.getLast?, isBlank c = false

-- Only the characters of the text are looked at here, not all characters that there are.
instance (s : List Char) : Decidable (AllBlank s) :=
  List.decidableBAll _ s

instance (s : List Char) : Decidable (IsTrimmed s) :=
  have : Decidable (∀ c ∈ s.head?, isBlank c = false) := Option.decidableForallMem s.head?
  have : Decidable (∀ c ∈ s.getLast?, isBlank c = false) := Option.decidableForallMem s.getLast?
  instDecidableAnd

/-- Whether `t` is the text `s` without the blanks at its two ends. -/
def TrimsTo (s t : List Char) : Prop :=
  IsTrimmed t ∧ ∃ before after, AllBlank before ∧ AllBlank after ∧ s = before ++ t ++ after

variable {s t before after : List Char}

/-- Blanks after blanks are blanks. -/
theorem AllBlank.append (blank : AllBlank before) (blank' : AllBlank after) :
    AllBlank (before ++ after) :=
  List.forall_mem_append.2 ⟨blank, blank'⟩

/-- Blanks at the start of a text are taken off. -/
theorem trimStart_append (blank : AllBlank before) (filled : ∀ c ∈ t.head?, isBlank c = false) :
    trimStart (before ++ t) = t := by
  rw [trimStart, List.dropWhile_append_of_pos blank]
  cases t with
  | nil => rfl
  | cons c cs =>
    apply List.dropWhile_cons_of_neg
    simp [filled c rfl]

/-- Blanks at the end of a text are taken off. -/
theorem trimEnd_append (blank : AllBlank after) (filled : ∀ c ∈ t.getLast?, isBlank c = false) :
    trimEnd (t ++ after) = t := by
  have blank' : AllBlank after.reverse := by
    intro c hc
    exact blank c (List.mem_reverse.1 hc)
  have filled' : ∀ c ∈ t.reverse.head?, isBlank c = false := by
    rw [List.head?_reverse]
    exact filled
  rw [trimEnd, List.reverse_append, ← trimStart, trimStart_append blank' filled',
    List.reverse_reverse]

/-- A text of blanks is trimmed to nothing. -/
theorem trim_of_allBlank (blank : AllBlank s) : trim s = [] := by
  have start : trimStart s = [] := List.dropWhile_eq_nil_iff.2 blank
  rw [trim, start]
  rfl

/-- Trimming gives what is written between blanks. -/
theorem TrimsTo.trim_eq (h : TrimsTo s t) : trim s = t := by
  obtain ⟨⟨first, last⟩, before, after, blank, blank', rfl⟩ := h
  cases t with
  | nil =>
    apply trim_of_allBlank
    rw [List.append_nil]
    exact blank.append blank'
  | cons c cs =>
    have start : trimStart (before ++ (c :: cs ++ after)) = c :: cs ++ after :=
      trimStart_append blank first
    rw [trim, List.append_assoc, start, trimEnd_append blank' last]

/-- Nothing is left of a text when it is made of blanks. -/
theorem TrimsTo.eq_nil_iff (h : TrimsTo s t) : t = [] ↔ AllBlank s := by
  constructor
  · intro empty
    obtain ⟨-, before, after, blank, blank', rfl⟩ := h
    rw [empty, List.append_nil]
    exact blank.append blank'
  · intro blank
    rw [← h.trim_eq, trim_of_allBlank blank]

/-- The first character that is kept at the start of a text is not a blank. -/
theorem isBlank_of_mem_head?_trimStart : ∀ c ∈ (trimStart s).head?, isBlank c = false := by
  intro c hc
  have kept := List.head?_dropWhile_not isBlank s
  rw [← trimStart, Option.mem_def.1 hc] at kept
  simpa using kept

/-- A text is trimmed to something that has no blank at its ends. -/
theorem trimsTo_trim (s : List Char) : TrimsTo s (trim s) := by
  let before := s.takeWhile isBlank
  let after := ((trimStart s).reverse.takeWhile isBlank).reverse
  have start : before ++ trimStart s = s := List.takeWhile_append_dropWhile
  have ending : trim s ++ after = trimStart s := by
    rw [trim, trimEnd, ← List.reverse_append, List.takeWhile_append_dropWhile,
      List.reverse_reverse]
  constructor
  · constructor
    · intro c hc
      apply isBlank_of_mem_head?_trimStart (s := s)
      rw [← ending, List.head?_append, Option.mem_def.1 hc]
      rfl
    · rw [trim, trimEnd, List.getLast?_reverse]
      exact isBlank_of_mem_head?_trimStart
  · refine ⟨before, after, ?_, ?_, ?_⟩
    · intro c hc
      exact List.mem_takeWhile_imp hc
    · intro c hc
      exact List.mem_takeWhile_imp (List.mem_reverse.1 hc)
    · rw [List.append_assoc, ending, start]

/-- Trimming gives the text without the blanks at its two ends. -/
theorem trim_eq_iff : trim s = t ↔ TrimsTo s t := by
  constructor
  · rintro rfl
    exact trimsTo_trim s
  · exact TrimsTo.trim_eq

end PageIndex.Text
