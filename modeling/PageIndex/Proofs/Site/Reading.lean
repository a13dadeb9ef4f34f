import PageIndex.Proofs.Site.Covering
import PageIndex.Proofs.Text.Trim

/-!
# Section rules as they are written

A rule is written as its title, an equals sign and its route. The first equals sign of the text is
the one that counts, blanks may stand around the title and the route, and the route may be written
in any form. What is read is told by the two parts of the text (`ofText?_eq_some_iff`), so a rule
can be read back from whatever it is written as (`ofText?_of_extends`). The main statement is
`ofText?_reads_written`.
-/

namespace PageIndex

namespace Route

/-- The texts in which slashes and `/index` stand after a route. -/
inductive Extends (route : String) : String → Prop where
  | self : Extends route route
  | slash {longer : String} (h : Extends route longer) : Extends route (longer ++ "/")
  | index {longer : String} (h : Extends route longer) : Extends route (longer ++ "/index")

/-- Whether a route does not end with a blank. -/
def HasNoBlankEnd (route : String) : Prop :=
  ∀ c ∈ route.toList.getLast?, Text.isBlank c = false

instance (route : String) : Decidable (HasNoBlankEnd route) :=
  Option.decidableForallMem route.toList.getLast?

variable {route longer : String}

/-- A route with slashes and `/index` after it is another spelling of the route. -/
theorem Extends.spells (h : Extends route longer) : Spells route longer := by
  induction h with
  | self => exact .self
  | slash _ ih => exact .slash ih
  | index _ ih => exact .index ih

/-- A canonical route starts with a slash. -/
theorem IsCanonical.exists_slash (h : IsCanonical route) : ∃ rest, route.toList = '/' :: rest :=
  ⟨_, h.toList_eq⟩

/-- What stands after a route leaves the slash at its start. -/
theorem Extends.exists_slash (h : Extends route longer) (canonical : IsCanonical route) :
    ∃ rest, longer.toList = '/' :: rest := by
  induction h with
  | self => exact canonical.exists_slash
  | slash _ ih | index _ ih =>
    obtain ⟨rest, start⟩ := ih
    rw [String.toList_append, start]
    exact ⟨_, List.cons_append⟩

/-- What stands after a route has no blank at its end. -/
theorem Extends.hasNoBlankEnd (h : Extends route longer) (ends : HasNoBlankEnd route) :
    HasNoBlankEnd longer := by
  induction h with
  | self => exact ends
  | slash _ _ | index _ _ =>
    intro c hc
    rw [String.toList_append, List.getLast?_append_of_ne_nil _ (by decide)] at hc
    cases hc
    decide

/-- A route with slashes and `/index` after it has no blank at its ends. -/
theorem Extends.isTrimmed (h : Extends route longer) (canonical : IsCanonical route)
    (ends : HasNoBlankEnd route) : Text.IsTrimmed longer.toList := by
  constructor
  · obtain ⟨rest, start⟩ := h.exists_slash canonical
    intro c hc
    rw [start] at hc
    cases hc
    decide
  · exact h.hasNoBlankEnd ends

end Route

namespace SectionRule

open Text (AllBlank IsTrimmed TrimsTo)

section Cut

variable {sep : Char} {cs before after : List Char}

/-- A text is cut at the first place where the character stands. -/
theorem cutAt?_eq_some_iff :
    cutAt? sep cs = some (before, after) ↔ cs = before ++ sep :: after ∧ sep ∉ before := by
  induction cs generalizing before with
  | nil => simp [cutAt?]
  | cons c cs ih =>
    rw [cutAt?]
    by_cases same : c = sep
    · rw [if_pos same]
      constructor
      · intro h
        cases h
        simp [same]
      · rintro ⟨parts, alone⟩
        cases before with
        | nil =>
          cases parts
          rfl
        | cons b rest =>
          cases parts
          exact absurd List.mem_cons_self (same ▸ alone)
    · rw [if_neg same, Option.map_eq_some_iff]
      constructor
      · rintro ⟨⟨rest, after'⟩, found, h⟩
        cases h
        obtain ⟨parts, alone⟩ := ih.1 found
        rw [parts, List.mem_cons, not_or]
        exact ⟨rfl, Ne.symm same, alone⟩
      · rintro ⟨parts, alone⟩
        cases before with
        | nil =>
          cases parts
          exact absurd rfl same
        | cons b rest =>
          cases parts
          exact ⟨(rest, after), ih.2 ⟨rfl, mt (List.mem_cons_of_mem _) alone⟩, rfl⟩

end Cut

variable {text title route longer : String} {rule : SectionRule}

/-- A rule is read from a text that has a title before its first equals sign, and a route that
starts with a slash after it. -/
theorem ofText?_eq_some_iff : ofText? text = some rule ↔
    ∃ before after rest, text.toList = before ++ '=' :: after ∧ '=' ∉ before ∧
      TrimsTo before rule.title.toList ∧ rule.title ≠ "" ∧
      TrimsTo after ('/' :: rest) ∧ rule.route = Route.normalize (String.ofList ('/' :: rest)) := by
  constructor
  · intro read
    rw [ofText?] at read
    split at read
    · cases read
    · next before after cut =>
      dsimp only at read
      split at read
      · cases read
      · next given =>
        cases read
        rw [cutAt?_eq_some_iff] at cut
        simp only [Bool.or_eq_true, not_or, List.isEmpty_iff, bne_iff_ne, ne_eq, not_not] at given
        obtain ⟨filled, slash⟩ := given
        obtain ⟨rest, start⟩ := List.head?_eq_some_iff.1 slash
        refine ⟨before, after, rest, cut.1, cut.2, ?_, ?_, Text.trim_eq_iff.1 start, ?_⟩
        · rw [String.toList_ofList]
          exact Text.trimsTo_trim before
        · exact mt String.ofList_eq_empty_iff.1 filled
        · rw [start]
  · rintro ⟨before, after, rest, parts, alone, titled, filled, routed, named⟩
    rw [ofText?, cutAt?_eq_some_iff.2 ⟨parts, alone⟩]
    dsimp only
    rw [titled.trim_eq, routed.trim_eq, String.ofList_toList, ← named, if_neg]
    simpa [String.toList_eq_nil_iff] using filled

/-- A rule is read back from a text that has blanks around its title and its route, and slashes and
`/index` after the route. -/
theorem ofText?_of_extends {blank blank' blank'' : String} (alone : '=' ∉ title.toList)
    (filled : title ≠ "") (titled : IsTrimmed title.toList) (canonical : Route.IsCanonical route)
    (ends : Route.HasNoBlankEnd route) (written : Route.Extends route longer)
    (hb : AllBlank blank.toList) (hb' : AllBlank blank'.toList) (hb'' : AllBlank blank''.toList) :
    ofText? (title ++ blank ++ "=" ++ blank' ++ longer ++ blank'') = some ⟨title, route⟩ := by
  obtain ⟨rest, start⟩ := written.exists_slash canonical
  refine ofText?_eq_some_iff.2 ⟨(title ++ blank).toList, (blank' ++ longer ++ blank'').toList, rest,
    ?_, ?_, ⟨titled, [], blank.toList, nofun, hb, ?_⟩, filled,
    ⟨?_, blank'.toList, blank''.toList, hb', hb'', ?_⟩, ?_⟩
  · simp
  · rw [String.toList_append, List.mem_append, not_or]
    refine ⟨alone, fun here => ?_⟩
    cases hb '=' here
  · simp
  · rw [← start]
    exact written.isTrimmed canonical ends
  · simp [start]
  · rw [← start, String.ofList_toList, written.spells.normalize_eq, canonical]

/-- A rule that was read from a text is read back from its own text, unless its route ends with a
blank. -/
theorem IsAccepted.ofText?_toText (accepted : rule.IsAccepted)
    (ends : Route.HasNoBlankEnd rule.route) : ofText? rule.toText = some rule := by
  obtain ⟨text, read⟩ := accepted
  obtain ⟨before, after, rest, -, alone, titled, filled, -, -⟩ := ofText?_eq_some_iff.1 read
  have inside : rule.title.toList ⊆ before := by
    obtain ⟨-, left, right, -, -, rfl⟩ := titled
    intro c hc
    exact List.mem_append_left right (List.mem_append_right left hc)
  have blank : AllBlank "".toList := nofun
  have written := ofText?_of_extends (mt (@inside '=') alone) filled titled.1
    (IsAccepted.isCanonical ⟨text, read⟩) ends .self blank blank blank
  rw [toText]
  simpa only [String.append_empty] using written

/-- A text is a section rule when an equals sign is in it, what stands before the first one is not
blank, and what stands after that starts with a slash once it is trimmed. The title is what stands
before the equals sign, trimmed, and the route is the canonical form of what stands after it,
trimmed. A title and a route that can be read at all are read back from every text in which blanks
stand around them and slashes and `/index` after the route, and so is a rule from its own text. -/
theorem ofText?_reads_written :
    (∀ text, (∃ rule, ofText? text = some rule) ↔
      ∃ before after : String, text = before ++ "=" ++ after ∧ '=' ∉ before.toList ∧
        ¬ AllBlank before.toList ∧ ∃ rest, TrimsTo after.toList ('/' :: rest)) ∧
    (∀ (before after : String) (rule : SectionRule), '=' ∉ before.toList →
      ofText? (before ++ "=" ++ after) = some rule →
      TrimsTo before.toList rule.title.toList ∧
      (∃ route : String, TrimsTo after.toList route.toList ∧
        rule.route = Route.normalize route) ∧
      Route.normalize rule.route = rule.route ∧ ∃ rest, rule.route.toList = '/' :: rest) ∧
    (∀ title route : String, '=' ∉ title.toList → title ≠ "" → IsTrimmed title.toList →
      Route.normalize route = route → Route.HasNoBlankEnd route →
      ∀ blank blank' blank'' longer : String, AllBlank blank.toList → AllBlank blank'.toList →
        AllBlank blank''.toList → Route.Extends route longer →
        ofText? (title ++ blank ++ "=" ++ blank' ++ longer ++ blank'') = some ⟨title, route⟩) ∧
    ∀ rule : SectionRule, rule.IsAccepted → Route.HasNoBlankEnd rule.route →
      ofText? rule.toText = some rule := by
  refine ⟨fun text => ⟨?_, ?_⟩, ?_, ?_, fun rule => IsAccepted.ofText?_toText⟩
  · rintro ⟨rule, read⟩
    obtain ⟨before, after, rest, parts, alone, titled, filled, routed, -⟩ :=
      ofText?_eq_some_iff.1 read
    refine ⟨String.ofList before, String.ofList after, ?_, ?_, ?_, rest, ?_⟩
    · rw [← String.toList_inj, parts]
      simp
    · simpa using alone
    · rw [String.toList_ofList, ← titled.eq_nil_iff, String.toList_eq_nil_iff]
      exact filled
    · rw [String.toList_ofList]
      exact routed
  · rintro ⟨before, after, rfl, alone, filled, rest, routed⟩
    have titled := Text.trimsTo_trim before.toList
    refine ⟨⟨String.ofList (Text.trim before.toList), _⟩, ofText?_eq_some_iff.2
      ⟨before.toList, after.toList, rest, by simp, alone, ?_, ?_, routed, rfl⟩⟩
    · rw [String.toList_ofList]
      exact titled
    · rw [Ne, String.ofList_eq_empty_iff, titled.eq_nil_iff]
      exact filled
  · intro before after rule alone read
    have canonical : Route.IsCanonical rule.route := IsAccepted.isCanonical ⟨_, read⟩
    obtain ⟨before', after', rest, parts, alone', titled, -, routed, named⟩ :=
      ofText?_eq_some_iff.1 read
    simp only [String.toList_append, List.append_assoc] at parts
    obtain rfl := Text.eq_of_append_cons_eq alone alone' parts
    obtain rfl := (List.cons.inj (List.append_cancel_left parts)).2
    refine ⟨titled, ⟨String.ofList ('/' :: rest), ?_, named⟩, canonical, canonical.exists_slash⟩
    rw [String.toList_ofList]
    exact routed
  · intro title route alone filled titled canonical ends blank blank' blank'' longer hb hb' hb'' h
    exact ofText?_of_extends alone filled titled canonical ends h hb hb' hb''

/-- A rule whose title has a blank in it, and whose route has an equals sign and a blank, is read
back from another spelling and from its own text. -/
theorem ofText?_reads_written_equals :
    let rule : SectionRule := ⟨"How to", "/a=b c"⟩
    '=' ∉ rule.title.toList ∧ rule.title ≠ "" ∧ IsTrimmed rule.title.toList ∧
    Route.normalize rule.route = rule.route ∧ Route.HasNoBlankEnd rule.route ∧
    AllBlank " \t".toList ∧ AllBlank " ".toList ∧ Route.Extends rule.route "/a=b c/index//" ∧
    ofText? "How to \t= /a=b c/index// " = some rule ∧
    TrimsTo "How to \t".toList rule.title.toList ∧
    rule.IsAccepted ∧ ofText? rule.toText = some rule := by
  intro rule
  have alone : '=' ∉ rule.title.toList ∧ rule.title ≠ "" ∧ IsTrimmed rule.title.toList := by
    decide
  have canonical : Route.normalize rule.route = rule.route ∧ Route.HasNoBlankEnd rule.route := by
    decide
  have blank : AllBlank " \t".toList ∧ AllBlank " ".toList := by decide
  have longer : Route.Extends rule.route "/a=b c/index//" := .slash (.slash (.index .self))
  obtain ⟨-, tells, written, rendered⟩ := ofText?_reads_written
  have read : ofText? "How to \t= /a=b c/index// " = some rule :=
    written _ _ alone.1 alone.2.1 alone.2.2 canonical.1 canonical.2 " \t" " " " " _ blank.1 blank.2
      blank.2 longer
  have parts := tells "How to \t" " /a=b c/index// " rule (by decide) read
  exact ⟨alone.1, alone.2.1, alone.2.2, canonical.1, canonical.2, blank.1, blank.2, longer, read,
    parts.1, ⟨_, read⟩, rendered rule ⟨_, read⟩ canonical.2⟩

end SectionRule

end PageIndex
