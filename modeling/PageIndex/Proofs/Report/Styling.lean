import PageIndex.Proofs.Report.Layout

/-!
# Styles in the report

With styles the report holds control sequences besides its text. Where the texts of the pages have
no escape character, a reader who takes all control sequences out is left with the report without
styles (`withoutSequences_flatMap`), and each style is turned off before another one is turned on
(`Balanced.closesStyles`). The main statement is `styles_add_sequences`.
-/

namespace PageIndex

namespace Text

/-! ### Control sequences -/

/-- The characters of the parameters of a control sequence. -/
def isParameter (c : Char) : Bool :=
  c.isDigit || c == ';'

/-- The control sequence with the given parameters. -/
def sequenceOf (params : List Char) : List Char :=
  '\x1b' :: '[' :: (params ++ ['m'])

/-- What follows the control sequence at the start of a text, when there is one. -/
def afterSequence? : List Char → Option (List Char)
  | '\x1b' :: '[' :: cs =>
    match cs.dropWhile isParameter with
    | 'm' :: rest => some rest
    | _ => none
  | _ => none

variable {c : Char} {cs rest s params : List Char}

theorem length_lt_of_afterSequence? (h : afterSequence? cs = some rest) :
    rest.length < cs.length := by
  rw [afterSequence?.eq_def] at h
  split at h
  · next cs =>
    split at h
    · next after dropped =>
      cases h
      have bound := (List.dropWhile_suffix isParameter (l := cs)).length_le
      rw [dropped, List.length_cons] at bound
      simp only [List.length_cons]
      omega
    · cases h
  · cases h

/-- A text without its control sequences. -/
def withoutSequences : List Char → List Char
  | [] => []
  | c :: cs =>
    match _ : afterSequence? (c :: cs) with
    | some rest => withoutSequences rest
    | none => c :: withoutSequences cs
termination_by cs => cs.length
decreasing_by
  · exact length_lt_of_afterSequence? (by assumption)
  · exact Nat.lt_succ_self cs.length

theorem withoutSequences_of_some (h : afterSequence? cs = some rest) :
    withoutSequences cs = withoutSequences rest := by
  cases cs with
  | nil => cases h
  | cons c cs =>
    rw [withoutSequences]
    split
    · next found =>
      rw [found] at h
      cases h
      rfl
    · next missing =>
      rw [missing] at h
      cases h

theorem withoutSequences_of_none (h : afterSequence? (c :: cs) = none) :
    withoutSequences (c :: cs) = c :: withoutSequences cs := by
  rw [withoutSequences]
  split
  · next found =>
    rw [found] at h
    cases h
  · rfl

/-- A sequence is taken out as a whole. -/
theorem withoutSequences_sequenceOf (hp : ∀ c ∈ params, isParameter c = true) :
    withoutSequences (sequenceOf params ++ cs) = withoutSequences cs := by
  have stop : (params ++ 'm' :: cs).dropWhile isParameter = 'm' :: cs := by
    rw [List.dropWhile_append_of_pos hp]
    rfl
  apply withoutSequences_of_some
  simp [sequenceOf, afterSequence?, stop]

/-- Text without escape characters stays. -/
theorem withoutSequences_append (free : '\x1b' ∉ s) :
    withoutSequences (s ++ cs) = s ++ withoutSequences cs := by
  induction s with
  | nil => rfl
  | cons c s ih =>
    rw [List.mem_cons, not_or] at free
    have ordinary : afterSequence? (c :: (s ++ cs)) = none := by
      rw [afterSequence?]
      intro _ same
      exact free.1 (List.cons.inj same).1.symm
    rw [List.cons_append, withoutSequences_of_none ordinary, ih free.2, List.cons_append]

/-! ### Styles that are turned off -/

/-- Texts in which each sequence that turns a style on has one after it that turns all styles off,
with no escape character and none of the given ones in between. -/
inductive Balanced (apart : List Char) : List Char → Prop where
  | nil : Balanced apart []
  | plain {c : Char} {cs : List Char} (other : c ≠ '\x1b') (rest : Balanced apart cs) :
      Balanced apart (c :: cs)
  | styled {params inner cs : List Char} (hp : ∀ c ∈ params, isParameter c = true)
      (single : '\x1b' ∉ inner) (free : ∀ c ∈ apart, c ∉ inner) (rest : Balanced apart cs) :
      Balanced apart (sequenceOf params ++ inner ++ Style.reset ++ cs)

/-- All styles are turned off by the parameter 0. -/
theorem reset_eq : Style.reset = sequenceOf ['0'] := by
  simp [Style.reset, Style.sequence, sequenceOf, joinWith]

theorem isParameter_zero : ∀ c ∈ ['0'], isParameter c = true :=
  List.forall_mem_singleton.2 rfl

/-- Whether each sequence of a text that turns a style on, wherever it stands, is followed by one
that turns all styles off, with no escape character and none of the given ones in between. -/
def ClosesStyles (apart : List Char) (text : List Char) : Prop :=
  ∀ before params after, text = before ++ sequenceOf params ++ after →
    (∀ c ∈ params, isParameter c = true) → params ≠ ['0'] →
    ∃ inner rest, after = inner ++ Style.reset ++ rest ∧ '\x1b' ∉ inner ∧ ∀ c ∈ apart, c ∉ inner

variable {apart : List Char} {text : List Char}

theorem Balanced.append_plain (free : '\x1b' ∉ s) (h : Balanced apart cs) :
    Balanced apart (s ++ cs) := by
  induction s with
  | nil => exact h
  | cons c s ih =>
    rw [List.mem_cons, not_or] at free
    exact .plain (Ne.symm free.1) (ih free.2)

/-- A character stands behind a text in which it is not. -/
theorem exists_of_append_eq {sep : Char} {s t before after : List Char} (free : sep ∉ s)
    (h : s ++ t = before ++ sep :: after) :
    ∃ more, before = s ++ more ∧ t = more ++ sep :: after := by
  rw [List.append_eq_append_iff] at h
  obtain ⟨more, rfl, rest⟩ | ⟨more, rfl, rest⟩ := h
  · exact ⟨more, rfl, rest⟩
  · cases more with
    | nil => exact ⟨[], by simp, by simpa using rest.symm⟩
    | cons c more =>
      obtain rfl := (List.cons.inj rest).1
      exact absurd (List.mem_append_right before List.mem_cons_self) free

/-- The parameters of a sequence end where it ends. -/
theorem eq_of_sequenceOf_append_eq {params' after : List Char}
    (hp : ∀ c ∈ params, isParameter c = true) (hp' : ∀ c ∈ params', isParameter c = true)
    (h : sequenceOf params ++ cs = sequenceOf params' ++ after) :
    params = params' ∧ cs = after := by
  have free {params : List Char} (hp : ∀ c ∈ params, isParameter c = true) : 'm' ∉ params := by
    intro here
    exact absurd (hp 'm' here) (by decide)
  simp only [sequenceOf, List.cons_append, List.append_assoc, List.nil_append, List.cons.injEq,
    true_and] at h
  obtain rfl := eq_of_append_cons_eq (free hp) (free hp') h
  exact ⟨rfl, (List.cons.inj (List.append_cancel_left h)).2⟩

/-- In a text that is balanced each style is turned off. -/
theorem Balanced.closesStyles (h : Balanced apart text) : ClosesStyles apart text := by
  induction h with
  | nil =>
    intro before params after same
    cases before <;> cases same
  | @plain c cs other rest ih =>
    intro before params after same hp opens
    cases before with
    | nil => exact absurd (List.cons.inj same).1 other
    | cons b before => exact ih before params after (List.cons.inj same).2 hp opens
  | @styled params inner cs hp single free rest ih =>
    intro before params' after same hp' opens
    have body : '\x1b' ∉ '[' :: (params ++ 'm' :: inner) := by
      intro here
      simp only [List.mem_cons, List.mem_append] at here
      obtain here | here | here | here := here
      · cases here
      · exact absurd (hp _ here) (by decide)
      · cases here
      · exact single here
    cases before with
    | nil =>
      -- The sequence is the one that turns this style on.
      rw [List.append_assoc, List.append_assoc, List.nil_append] at same
      obtain ⟨-, rfl⟩ := eq_of_sequenceOf_append_eq hp hp' same
      exact ⟨inner, cs, by rw [List.append_assoc], single, free⟩
    | cons b before =>
      have below : '[' :: (params ++ 'm' :: inner) ++ (Style.reset ++ cs) =
          before ++ '\x1b' :: ('[' :: (params' ++ 'm' :: after)) := by
        simpa [sequenceOf] using (List.cons.inj same).2
      obtain ⟨more, -, later⟩ := exists_of_append_eq body below
      cases more with
      | nil =>
        -- The sequence is the one that turns this style off.
        have last : sequenceOf ['0'] ++ cs = sequenceOf params' ++ after := by
          rw [← reset_eq, later]
          simp [sequenceOf]
        exact absurd (eq_of_sequenceOf_append_eq isParameter_zero hp' last).1.symm opens
      | cons b more =>
        have mark : '\x1b' ∉ ['[', '0', 'm'] := by decide
        have behind : ['[', '0', 'm'] ++ cs =
            more ++ '\x1b' :: ('[' :: (params' ++ 'm' :: after)) := by
          rw [reset_eq] at later
          exact (List.cons.inj later).2
        obtain ⟨start, -, inside⟩ := exists_of_append_eq mark behind
        apply ih start params' after ?_ hp' opens
        rw [inside]
        simp [sequenceOf]

/-! ### Pieces of text -/

section Spans

variable {span : Span} {spans : List Span}

/-- A text without escape characters turns no style off. -/
theorem reopen_eq_self (opening : List Char) (free : '\x1b' ∉ s) :
    Span.reopen opening s = s := by
  induction s with
  | nil => rfl
  | cons c s ih =>
    rw [List.mem_cons, not_or] at free
    rw [Span.reopen, ih free.2]
    intro _ same
    exact absurd same.symm free.1

/-- The codes of a style are numbers. -/
theorem isDigit_of_mem_codes {style : Style} {code : String} (h : code ∈ style.codes) :
    code.toList.all Char.isDigit = true := by
  obtain ⟨weight, colour⟩ := style
  rw [Style.codes, List.mem_append, List.mem_map] at h
  obtain h | ⟨c, -, rfl⟩ := h
  · cases weight with
    | normal => cases h
    | bold | dim =>
      rw [List.mem_singleton.1 h]
      rfl
  · cases c <;> rfl

/-- What turns a style on is a sequence. -/
theorem exists_opening (style : Style) :
    ∃ params, style.opening = sequenceOf params ∧ ∀ c ∈ params, isParameter c = true := by
  refine ⟨joinWith [';'] (style.codes.map String.toList), rfl, ?_⟩
  intro c hc
  obtain hc | ⟨piece, hp, hc⟩ := mem_or_exists_of_mem_joinWith hc
  · rw [List.mem_singleton.1 hc]
    rfl
  · obtain ⟨code, given, rfl⟩ := List.mem_map.1 hp
    rw [isParameter, List.all_eq_true.1 (isDigit_of_mem_codes given) c hc, Bool.true_or]

/-- A piece is written as its text, or as its text between two sequences. -/
theorem toTerminal_cases (free : '\x1b' ∉ span.text.toList) :
    span.style = .plain ∧ span.toTerminal = span.text.toList ∨
      span.style ≠ .plain ∧ ∃ params, (∀ c ∈ params, isParameter c = true) ∧
        span.toTerminal = sequenceOf params ++ span.text.toList ++ Style.reset := by
  rw [Span.toTerminal]
  by_cases unstyled : span.style = .plain
  · exact .inl ⟨unstyled, if_pos unstyled⟩
  · obtain ⟨params, written, hp⟩ := exists_opening span.style
    refine .inr ⟨unstyled, params, hp, ?_⟩
    rw [if_neg unstyled, reopen_eq_self _ free, written]

/-- Without the sequences, the text of the pieces is left. -/
theorem withoutSequences_flatMap (free : ∀ span ∈ spans, '\x1b' ∉ span.text.toList) :
    withoutSequences (spans.flatMap Span.toTerminal) = spans.flatMap (·.text.toList) := by
  induction spans with
  | nil => exact withoutSequences.eq_1
  | cons span rest ih =>
    obtain ⟨here, below⟩ := List.forall_mem_cons.1 free
    rw [List.flatMap_cons, List.flatMap_cons, ← ih below]
    obtain ⟨-, written⟩ | ⟨-, params, hp, written⟩ := toTerminal_cases here
    · rw [written, withoutSequences_append here]
    · rw [written, List.append_assoc, List.append_assoc, withoutSequences_sequenceOf hp,
        withoutSequences_append here, reset_eq, withoutSequences_sequenceOf isParameter_zero]

/-- Pieces are written one after the other, so a style is turned off before the next piece. -/
theorem balanced_flatMap (free : ∀ span ∈ spans, '\x1b' ∉ span.text.toList)
    (inside : ∀ span ∈ spans, span.style ≠ .plain → ∀ c ∈ apart, c ∉ span.text.toList) :
    Balanced apart (spans.flatMap Span.toTerminal) := by
  induction spans with
  | nil => exact .nil
  | cons span rest ih =>
    obtain ⟨here, below⟩ := List.forall_mem_cons.1 free
    obtain ⟨inside_here, inside_below⟩ := List.forall_mem_cons.1 inside
    rw [List.flatMap_cons]
    obtain ⟨-, written⟩ | ⟨styled, params, hp, written⟩ := toTerminal_cases here
    · rw [written]
      exact .append_plain here (ih below inside_below)
    · rw [written]
      exact .styled hp here (inside_here styled) (ih below inside_below)

end Spans

end Text

namespace Report

open Text (withoutSequences ClosesStyles)

/-! ### The pieces of the report -/

section Control

/-- Whether a piece has a character only as a line break without a style. -/
def HasOnlyBreaks (c : Char) (span : Span) : Prop :=
  c ∈ span.text.toList → c = '\n' ∧ span.style = .plain

variable {c : Char} (control : c.toNat < 32)

theorem hasOnlyBreaks_of_notMem {span : Span} (free : c ∉ span.text.toList) :
    HasOnlyBreaks c span :=
  fun here => absurd here free

include control

theorem hasOnlyBreaks_of_shown {span : Span}
    (shown : span.text.toList.all (32 ≤ ·.toNat) = true) : HasOnlyBreaks c span :=
  hasOnlyBreaks_of_notMem (notMem_of_shown control shown)

/-- A text without a style may have line breaks beside the characters that are shown. -/
theorem hasOnlyBreaks_ofText {text : String}
    (shown : text.toList.all (fun d => 32 ≤ d.toNat || d == '\n') = true) :
    HasOnlyBreaks c (.ofText text) := by
  intro here
  have bound := List.all_eq_true.1 shown c here
  rw [Bool.or_eq_true, decide_eq_true_iff, beq_iff_eq] at bound
  exact ⟨bound.resolve_left (by omega), rfl⟩

variable {root : Path} {page : PageRecord} {pages : List PageRecord}

theorem hasOnlyBreaks_detailLine (count warnings number : Nat) {text : String}
    (free : c ∉ text.toList) :
    ∀ span ∈ detailLine count warnings text number, HasOnlyBreaks c span := by
  have mark : HasOnlyBreaks c ⟨⟨.dim, none⟩, markAt count number⟩ :=
    hasOnlyBreaks_of_notMem (notMem_markAt control count number)
  rw [detailLine]
  split <;> simp only [List.forall_mem_append, List.forall_mem_cons, List.not_mem_nil,
    false_imp_iff, implies_true, and_true]
  · exact ⟨⟨⟨mark, hasOnlyBreaks_ofText control rfl⟩,
      hasOnlyBreaks_of_shown control rfl, hasOnlyBreaks_ofText control rfl,
      hasOnlyBreaks_of_notMem free⟩, hasOnlyBreaks_ofText control rfl⟩
  · exact ⟨⟨⟨mark, hasOnlyBreaks_ofText control rfl⟩,
      hasOnlyBreaks_of_notMem free⟩, hasOnlyBreaks_ofText control rfl⟩

theorem hasOnlyBreaks_detailLines (lacks : page.Lacks c) :
    ∀ span ∈ detailLines page, HasOnlyBreaks c span := by
  intro span hs
  obtain ⟨⟨text, number⟩, hl, hs⟩ := List.mem_flatMap.1 hs
  have free : c ∉ text.toList :=
    notMem_details control lacks text (List.fst_mem_of_mem_zipIdx hl)
  exact hasOnlyBreaks_detailLine control _ _ number free span hs

theorem hasOnlyBreaks_pageBlock (lacks : page.Lacks c) :
    ∀ span ∈ pageBlock root page, HasOnlyBreaks c span := by
  simp only [pageBlock, List.forall_mem_append, List.forall_mem_cons, List.not_mem_nil,
    false_imp_iff, implies_true, and_true]
  exact ⟨⟨⟨hasOnlyBreaks_of_notMem lacks.route, hasOnlyBreaks_ofText control rfl,
    hasOnlyBreaks_of_notMem (notMem_display lacks), hasOnlyBreaks_ofText control rfl⟩,
    hasOnlyBreaks_detailLines control lacks⟩, hasOnlyBreaks_ofText control rfl⟩

theorem hasOnlyBreaks_totalLine {label : String} (style : Style) (count : Nat)
    (shown : ("  " ++ label ++ ": ").toList.all (32 ≤ ·.toNat) = true) :
    ∀ span ∈ totalLine label style count, HasOnlyBreaks c span := by
  simp only [totalLine, List.forall_mem_cons, List.not_mem_nil, false_imp_iff, implies_true,
    and_true]
  exact ⟨hasOnlyBreaks_of_shown control shown, hasOnlyBreaks_of_notMem (notMem_toString control _),
    hasOnlyBreaks_ofText control rfl⟩

theorem hasOnlyBreaks_tree (lacks : ∀ page ∈ pages, page.Lacks c) :
    ∀ span ∈ tree root pages, HasOnlyBreaks c span := by
  have blocks : ∀ span ∈ pages.flatMap (pageBlock root), HasOnlyBreaks c span := by
    intro span hs
    obtain ⟨page, hp, hs⟩ := List.mem_flatMap.1 hs
    exact hasOnlyBreaks_pageBlock control (lacks page hp) span hs
  simp only [tree, summary, List.forall_mem_append, List.forall_mem_cons, List.not_mem_nil,
    false_imp_iff, implies_true, and_true]
  exact ⟨⟨⟨hasOnlyBreaks_of_shown control rfl, hasOnlyBreaks_ofText control rfl,
    hasOnlyBreaks_of_notMem (notMem_toString control _), hasOnlyBreaks_ofText control rfl⟩,
    blocks⟩, ⟨⟨⟨⟨hasOnlyBreaks_of_shown control shown_rule, hasOnlyBreaks_ofText control rfl,
    hasOnlyBreaks_of_shown control rfl, hasOnlyBreaks_ofText control rfl⟩,
    hasOnlyBreaks_totalLine control _ _ rfl⟩, hasOnlyBreaks_totalLine control _ _ rfl⟩,
    hasOnlyBreaks_totalLine control _ _ rfl⟩, hasOnlyBreaks_totalLine control _ _ rfl⟩

theorem hasOnlyBreaks_noPages (free : c ∈ root.text.toList → c = '\n') :
    ∀ span ∈ noPages root, HasOnlyBreaks c span := by
  simp only [noPages, List.forall_mem_cons, List.not_mem_nil, false_imp_iff, implies_true,
    and_true]
  refine ⟨hasOnlyBreaks_of_shown control rfl, fun here => ⟨?_, rfl⟩⟩
  simp only [Span.ofText, String.toList_append, List.mem_append] at here
  obtain (here | here) | here := here
  · exact absurd here (notMem_of_shown control rfl)
  · exact free here
  · exact List.mem_singleton.1 here

end Control

section Spans

variable {spans : List Span} (free : ∀ span ∈ spans, HasOnlyBreaks '\x1b' span)
include free

theorem notMem_escape : ∀ span ∈ spans, '\x1b' ∉ span.text.toList := by
  intro span hs here
  exact absurd (free span hs here).1 (by decide)

/-- What is written for a terminal is what is written plainly, and control sequences. -/
theorem withoutSequences_spansText :
    withoutSequences (spansText true spans).toList = (spansText false spans).toList := by
  rw [spansText, spansText, if_pos rfl, if_neg Bool.false_ne_true, terminalText, plainText,
    String.toList_ofList, String.toList_ofList]
  exact Text.withoutSequences_flatMap (notMem_escape free)

theorem closesStyles_spansText {apart : List Char}
    (inside : ∀ c ∈ apart, ∀ span ∈ spans, HasOnlyBreaks c span) :
    ClosesStyles apart (spansText true spans).toList := by
  rw [spansText, if_pos rfl, terminalText, String.toList_ofList]
  apply Text.Balanced.closesStyles
  apply Text.balanced_flatMap (notMem_escape free)
  intro span hs styled c hc here
  exact styled (inside c hc span hs here).2

end Spans

/-- The report with styles is the report without styles and control sequences, when the texts that
it shows have no escape character: taking the sequences out leaves the other one. Each style is
turned off before the next one is turned on, and before the end of its line when the texts of the
pages have no line break. The same holds of what is written when there are no pages. -/
theorem styles_add_sequences (root : Path) (pages : List PageRecord) :
    ((∀ page ∈ pages, page.Lacks '\x1b') →
      withoutSequences (spansText true (tree root pages)).toList =
        (spansText false (tree root pages)).toList ∧
      ClosesStyles [] (spansText true (tree root pages)).toList ∧
      ((∀ page ∈ pages, page.Lacks '\n') →
        ClosesStyles ['\n'] (spansText true (tree root pages)).toList)) ∧
    ('\x1b' ∉ root.text.toList →
      withoutSequences (spansText true (noPages root)).toList =
        (spansText false (noPages root)).toList ∧
      ClosesStyles ['\n'] (spansText true (noPages root)).toList) := by
  have escape : '\x1b'.toNat < 32 := by decide
  have line : '\n'.toNat < 32 := by decide
  constructor
  · intro lacks
    have free : ∀ span ∈ tree root pages, HasOnlyBreaks '\x1b' span :=
      hasOnlyBreaks_tree escape lacks
    refine ⟨withoutSequences_spansText free, closesStyles_spansText free nofun, fun lacks' => ?_⟩
    apply closesStyles_spansText free
    intro c hc
    rw [List.mem_singleton.1 hc]
    exact hasOnlyBreaks_tree line lacks'
  · intro lacks
    have free := hasOnlyBreaks_noPages escape fun here => absurd here lacks
    refine ⟨withoutSequences_spansText free, closesStyles_spansText free ?_⟩
    intro c hc
    rw [List.mem_singleton.1 hc]
    exact hasOnlyBreaks_noPages line fun _ => rfl

/-- Texts that look like the insides of sequences are neither taken out nor taken for them. -/
theorem styles_add_sequences_inside :
    let page : PageRecord := { PageRecord.blank "/[31m" ⟨"/app/[0m/page.js"⟩ with
      warnings := ["0m[0m", "1;2m"] }
    (∀ other ∈ [page], other.Lacks '\x1b') ∧ (∀ other ∈ [page], other.Lacks '\n') ∧
    '\x1b' ∉ "/[0m".toList ∧
    withoutSequences (spansText true (tree ⟨"/"⟩ [page])).toList =
      (spansText false (tree ⟨"/"⟩ [page])).toList ∧
    ClosesStyles ['\n'] (spansText true (tree ⟨"/"⟩ [page])).toList ∧
    withoutSequences (spansText true (noPages ⟨"/[0m"⟩)).toList =
      (spansText false (noPages ⟨"/[0m"⟩)).toList := by
  intro page
  have lacks : (∀ other ∈ [page], other.Lacks '\x1b') ∧ ∀ other ∈ [page], other.Lacks '\n' := by
    decide
  have root : '\x1b' ∉ "/[0m".toList := by decide
  obtain ⟨taken_out, -, closed⟩ := (styles_add_sequences ⟨"/"⟩ [page]).1 lacks.1
  exact ⟨lacks.1, lacks.2, root, taken_out, closed lacks.2,
    ((styles_add_sequences ⟨"/[0m"⟩ []).2 root).1⟩

end Report

end PageIndex
