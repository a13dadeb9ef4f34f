import PageIndex.Options

/-!
# Reading options

What one way of reading a word gives is known from its parts (`bind_eq_ok`, `read_cons`). A property
that the default options have, and that no value and no switch takes away, is one of all options
that a command line gives (`IsKept.of_ofWords`). So the section rules of a run are all read from
texts (`isAccepted_of_ofWords`).
-/

namespace PageIndex

/-- Whether a rule is read from some text. -/
def SectionRule.IsAccepted (rule : SectionRule) : Prop :=
  ∃ text, ofText? text = some rule

namespace Options

namespace Progress

/-- Two steps give something when the first one does and the second one goes on from it. -/
theorem bind_eq_ok {α β : Type} {x : Except Problem α} {f : α → Except Problem β} {b : β} :
    x.bind f = .ok b ↔ ∃ a, x = .ok a ∧ f a = .ok b := by
  cases x <;> simp [Except.bind]

/-- Words are read one after the other. -/
theorem read_cons {word : String} (more : word ≠ "--") (rest : List String) (p : Progress) :
    p.read (word :: rest) = (p.addWord word).bind (·.read rest) := by
  rw [Progress.read.eq_def]
  simp only [if_neg more]
  cases p.addWord word <;> rfl

/-- Nothing stands behind two dashes alone. -/
theorem read_end {rest : List String} {p q : Progress} (h : p.read ("--" :: rest) = .ok q) :
    rest = [] := by
  cases rest with
  | nil => rfl
  | cons extra _ => cases h

end Progress

/-- The options that words give are those that have been read in the end. -/
theorem ofWords_eq_ok {words : List String} {options : Options} :
    ofWords words = .ok options ↔ ∃ q, Progress.start.read words = .ok q ∧ q.options = options := by
  unfold ofWords
  cases Progress.start.read words <;> simp [Except.map]

/-- Whether no value and no switch takes a property of options away. -/
structure IsKept (P : Options → Prop) : Prop where
  value : ∀ {o o' : Options} {isFirst : Bool} {value : String} {option : Valued},
    P o → setValue o isFirst value option = .ok o' → P o'
  skip : ∀ {o : Options}, P o → P { o with skipMetadataFallback := true }
  deny : ∀ {o : Options}, P o → P { o with denyWarnings := true }

namespace IsKept

variable {P : Options → Prop} {p q : Progress}

/-- Reading an option with its value keeps the property. -/
theorem addValue (kept : IsKept P) (hp : P p.options) {option : Valued} {value : String}
    (h : p.addValue option value = .ok q) : P q.options := by
  simp only [Progress.addValue] at h
  split at h
  · cases h
  · obtain ⟨options, set, done⟩ := Progress.bind_eq_ok.1 h
    cases done
    exact kept.value hp set

/-- Settling the pending option keeps the property. -/
theorem settle (kept : IsKept P) (hp : P p.options) (h : p.settle = .ok q) : P q.options := by
  rw [Progress.settle] at h
  split at h
  · cases h
    exact hp
  · cases h
  · exact kept.addValue (p := { p with pending := none }) hp h

/-- Reading a switch keeps the property. -/
theorem addSwitch (kept : IsKept P) (hp : P p.options) {switch : Switch}
    (h : p.addSwitch switch = .ok q) : P q.options := by
  rw [Progress.addSwitch] at h
  split at h
  · cases h
  · cases switch with
    | skipMetadataFallback =>
      cases h
      exact kept.skip hp
    | denyWarnings =>
      cases h
      exact kept.deny hp
    | help => cases h

/-- Reading an option that is written with two dashes keeps the property. -/
theorem addLong (kept : IsKept P) (hp : P p.options) {word name : String}
    {attached : Option String} (h : p.addLong word name attached = .ok q) : P q.options := by
  unfold Progress.addLong at h
  split at h
  · obtain ⟨settled, first, second⟩ := Progress.bind_eq_ok.1 h
    exact kept.addValue (kept.settle hp first) second
  · obtain ⟨settled, first, second⟩ := Progress.bind_eq_ok.1 h
    have keeps := kept.settle hp first
    cases second
    exact keeps
  · cases h
  · obtain ⟨settled, first, second⟩ := Progress.bind_eq_ok.1 h
    exact kept.addSwitch (kept.settle hp first) second
  · cases h

/-- Reading a free-standing word keeps the property. -/
theorem addPlain (hp : P p.options) {word : String} (h : p.addPlain word = .ok q) :
    P q.options := by
  rw [Progress.addPlain] at h
  split at h
  · cases h
    exact hp
  · cases h

/-- Reading a word keeps the property. -/
theorem addWord (kept : IsKept P) (hp : P p.options) {word : String}
    (h : p.addWord word = .ok q) : P q.options := by
  rw [Progress.addWord] at h
  split at h
  · split at h
    · exact kept.addLong hp h
    · exact kept.addLong hp h
  · obtain ⟨settled, first, second⟩ := Progress.bind_eq_ok.1 h
    exact kept.addSwitch (kept.settle hp first) second
  · cases h
  · exact addPlain hp h

/-- Reading words keeps the property. -/
theorem read (kept : IsKept P) (hp : P p.options) {words : List String}
    (h : p.read words = .ok q) : P q.options := by
  induction words generalizing p with
  | nil => exact kept.settle hp h
  | cons word rest ih =>
    by_cases last : word = "--"
    · subst last
      obtain rfl := Progress.read_end h
      exact kept.settle hp h
    · rw [Progress.read_cons last] at h
      obtain ⟨next, first, second⟩ := Progress.bind_eq_ok.1 h
      exact ih (kept.addWord hp first) second

/-- All options of a command line have the property if the default ones do. -/
theorem of_ofWords (kept : IsKept P) (start : P Options.default) {words : List String}
    {options : Options} (valid : ofWords words = .ok options) : P options := by
  obtain ⟨q, read, rfl⟩ := ofWords_eq_ok.1 valid
  exact kept.read (p := .start) start read

end IsKept

/-- The section rules of a command line are read from texts. -/
theorem isAccepted_of_ofWords {words : List String} {options : Options}
    (valid : ofWords words = .ok options) : ∀ rule ∈ options.sections, rule.IsAccepted := by
  have kept : IsKept fun o => ∀ rule ∈ o.sections, rule.IsAccepted := by
    refine ⟨fun {o o' isFirst value option} hp set => ?_, id, id⟩
    cases option with
    | sectionRule =>
      simp only [setValue] at set
      split at set
      · cases set
      · next rule given =>
        cases set
        have accepted : ∀ rule' ∈ [rule], rule'.IsAccepted :=
          List.forall_mem_singleton.2 ⟨value, given⟩
        cases isFirst with
        | true => exact accepted
        | false => exact List.forall_mem_append.2 ⟨hp, accepted⟩
    | root | appDir | pagesDir | manifest =>
      obtain ⟨path, -, done⟩ := Progress.bind_eq_ok.1 set
      cases done
      exact hp
    | baseUrl | title | description =>
      cases set
      exact hp
  exact kept.of_ofWords nofun valid

end Options

end PageIndex
