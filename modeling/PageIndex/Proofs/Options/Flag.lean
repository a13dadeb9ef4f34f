import PageIndex.Proofs.Options.Reading

/-!
# The switch that refuses warnings

The words of a command line give options that refuse warnings exactly when the switch for that is
one of them, wherever it stands. The main statements are `denyWarnings_iff` and
`ofWords_cons_denyFlag`: a command line without the switch stays one when the switch is put in
front, and the other options are the same.
-/

namespace PageIndex

namespace Options

/-- The word that is the switch. -/
def denyFlag : String :=
  "--deny-warnings"

namespace Progress

/-- What has been read, with the switch read before it. -/
def flagged (p : Progress) : Progress :=
  { p with
    options := { p.options with denyWarnings := true }
    switches := p.switches ++ [.denyWarnings] }

/-- A way of reading on leaves the switch alone: it neither sets it nor depends on it. -/
def Ignores (read : Progress → Except Problem Progress) : Prop :=
  ∀ p q, read p = .ok q →
    q.options.denyWarnings = p.options.denyWarnings ∧ read p.flagged = .ok q.flagged

private theorem ofName?_eq_denyWarnings {name : String}
    (h : Switch.ofName? name = some .denyWarnings) : name = "deny-warnings" := by
  unfold Switch.ofName? at h
  split at h
  · cases h
  · split at h
    · assumption
    · split at h <;> cases h

/-- Refusing leaves the switch alone. -/
theorem Ignores.refuse (e : Problem) : Ignores fun _ => .error e := by
  intro p q h
  cases h

/-- What leaves the switch alone in two parts does so as a whole. -/
theorem Ignores.bind {read next : Progress → Except Problem Progress} (hr : Ignores read)
    (hn : Ignores next) : Ignores fun p => (read p).bind next := by
  intro p q h
  obtain ⟨between, first, second⟩ := bind_eq_ok.1 h
  obtain ⟨kept, flagged⟩ := hr p between first
  obtain ⟨kept', flagged'⟩ := hn between q second
  refine ⟨kept'.trans kept, ?_⟩
  simp only [flagged, Except.bind, flagged']

private theorem setValue_flagged {o o' : Options} {isFirst : Bool} {value : String}
    {option : Valued} (h : setValue o isFirst value option = .ok o') :
    o'.denyWarnings = o.denyWarnings ∧
      setValue { o with denyWarnings := true } isFirst value option =
        .ok { o' with denyWarnings := true } := by
  cases option with
  | root | appDir | pagesDir | manifest =>
    obtain ⟨path, given, set⟩ := bind_eq_ok.1 h
    cases set
    refine ⟨rfl, ?_⟩
    simp only [setValue, given]
    rfl
  | baseUrl | title | description =>
    cases h
    exact ⟨rfl, rfl⟩
  | sectionRule =>
    simp only [setValue] at h ⊢
    split at h
    · cases h
    · cases h
      exact ⟨rfl, rfl⟩

/-- Reading an option with its value leaves the switch alone. -/
theorem ignores_addValue (option : Valued) (value : String) :
    Ignores (·.addValue option value) := by
  intro p q h
  simp only [addValue] at h ⊢
  split at h
  · cases h
  next unique =>
    obtain ⟨options, set, done⟩ := bind_eq_ok.1 h
    cases done
    obtain ⟨kept, flagged⟩ := setValue_flagged set
    refine ⟨kept, (if_neg unique).trans ?_⟩
    exact bind_eq_ok.2 ⟨_, flagged, rfl⟩

/-- Settling the pending option leaves the switch alone. -/
theorem ignores_settle : Ignores settle := by
  intro p q h
  obtain ⟨options, valued, switches, pending⟩ := p
  cases pending with
  | none =>
    cases h
    exact ⟨rfl, rfl⟩
  | some waiting =>
    obtain ⟨option, value⟩ := waiting
    cases value with
    | none => cases h
    | some value => exact ignores_addValue option value ⟨options, valued, switches, none⟩ q h

/-- Reading another switch leaves the switch alone. -/
theorem ignores_addSwitch {switch : Switch} (other : switch ≠ .denyWarnings) :
    Ignores (·.addSwitch switch) := by
  intro p q h
  have unread : p.flagged.switches.contains switch = p.switches.contains switch := by
    simp [Progress.flagged, other]
  simp only [addSwitch, unread] at h ⊢
  split at h
  · cases h
  next unique =>
    rw [if_neg unique]
    cases switch with
    | skipMetadataFallback =>
      cases h
      exact ⟨rfl, rfl⟩
    | denyWarnings => exact absurd rfl other
    | help => cases h

/-- Reading an option that is written with two dashes leaves the switch alone, unless it is the
switch. -/
theorem ignores_addLong {word name : String} {attached : Option String}
    (other : attached = none → name ≠ "deny-warnings") :
    Ignores (·.addLong word name attached) := by
  unfold addLong
  cases valued : Valued.ofName? name with
  | some option =>
    cases attached with
    | some value => exact ignores_settle.bind (ignores_addValue option value)
    | none =>
      refine ignores_settle.bind fun p q h => ?_
      cases h
      exact ⟨rfl, rfl⟩
  | none =>
    cases switched : Switch.ofName? name with
    | some switch =>
      cases attached with
      | some value => exact Ignores.refuse _
      | none =>
        refine ignores_settle.bind (ignores_addSwitch ?_)
        rintro rfl
        exact other rfl (ofName?_eq_denyWarnings switched)
    | none => exact Ignores.refuse _

/-- Reading a free-standing word leaves the switch alone. -/
theorem ignores_addPlain (word : String) : Ignores (·.addPlain word) := by
  intro p q h
  obtain ⟨options, valued, switches, pending⟩ := p
  match pending, h with
  | some (option, none), h =>
    cases h
    exact ⟨rfl, rfl⟩

/-- Reading any other word leaves the switch alone. -/
theorem ignores_addWord {word : String} (other : word ≠ denyFlag) :
    Ignores (·.addWord word) := by
  unfold addWord
  split
  next body written =>
    split
    -- With a value attached, even the name of the switch is refused.
    · exact ignores_addLong nofun
    · refine ignores_addLong fun _ named => other (String.toList_inj.1 ?_)
      have letters : body = "deny-warnings".toList := by rw [← named, String.toList_ofList]
      rw [written, letters]
      rfl
  next => exact ignores_settle.bind (ignores_addSwitch nofun)
  next => exact Ignores.refuse _
  next => exact ignores_addPlain word

/-- Reading words that do not have the switch leaves it alone. -/
theorem ignores_read {words : List String} (other : denyFlag ∉ words) : Ignores (·.read words) := by
  induction words with
  | nil => exact ignores_settle
  | cons word rest ih =>
    obtain ⟨here, later⟩ := not_or.1 (mt List.mem_cons.2 other)
    by_cases last : word = "--"
    · subst last
      intro p q h
      obtain rfl := read_end h
      exact ignores_settle p q h
    · simp only [read_cons last]
      exact (ignores_addWord (Ne.symm here)).bind (ih later)

/-- The switch is set when it is read. -/
theorem denyWarnings_addWord {p q : Progress} (h : p.addWord denyFlag = .ok q) :
    q.options.denyWarnings = true := by
  obtain ⟨settled, -, set⟩ : ∃ settled, p.settle = .ok settled ∧
      settled.addSwitch .denyWarnings = .ok q := bind_eq_ok.1 h
  simp only [addSwitch] at set
  split at set
  · cases set
  · cases set
    rfl

/-- The switch is set after words are read if it was set before, or if it is one of them. -/
theorem denyWarnings_read {p q : Progress} {words : List String} (h : p.read words = .ok q) :
    q.options.denyWarnings = true ↔ p.options.denyWarnings = true ∨ denyFlag ∈ words := by
  induction words generalizing p with
  | nil => rw [(ignores_settle p q h).1, List.mem_nil_iff, or_false]
  | cons word rest ih =>
    by_cases last : word = "--"
    · subst last
      obtain rfl := read_end h
      rw [(ignores_settle p q h).1, List.mem_singleton]
      exact (or_iff_left (by decide)).symm
    · rw [read_cons last] at h
      obtain ⟨next, read, onward⟩ := bind_eq_ok.1 h
      rw [ih onward, List.mem_cons]
      by_cases here : denyFlag = word
      · subst here
        simp [denyWarnings_addWord read]
      · rw [(ignores_addWord (Ne.symm here) p next read).1, or_iff_right here]

end Progress

/-- A command line gives options that refuse warnings if the switch is one of its words. -/
theorem denyWarnings_iff {words : List String} {options : Options}
    (valid : ofWords words = .ok options) : options.denyWarnings = true ↔ denyFlag ∈ words := by
  obtain ⟨q, read, rfl⟩ := ofWords_eq_ok.1 valid
  rw [Progress.denyWarnings_read read]
  exact or_iff_right nofun

/-- With the switch in front, a command line without it gives the same options, but for the
switch. -/
theorem ofWords_cons_denyFlag {words : List String} {options : Options}
    (valid : ofWords words = .ok options) (other : denyFlag ∉ words) :
    ofWords (denyFlag :: words) = .ok { options with denyWarnings := true } := by
  obtain ⟨q, read, rfl⟩ := ofWords_eq_ok.1 valid
  have first : Progress.start.addWord denyFlag = .ok Progress.start.flagged := rfl
  obtain ⟨-, later⟩ := Progress.ignores_read other Progress.start q read
  refine ofWords_eq_ok.2 ⟨q.flagged, ?_, rfl⟩
  rw [Progress.read_cons (by decide), first]
  exact later

end Options

end PageIndex
