import Mathlib.Data.List.Forall2
import PageIndex.Proofs.Path.Relative
import PageIndex.Proofs.Site.Partition
import PageIndex.Report.Pages

/-!
# The lines of the report

The report without styles is a text of lines: two lines at the start, a block of lines for each
page, and the totals (`plainText_tree`). What the lines of a block are is told without the numbers
of the lines (`IsBlock`): the header, what is told of the page, the warnings, and a blank line at
the end. The main statement is `linesOf_tree`.
-/

namespace PageIndex

namespace Text

/-- The text with the given lines, each with a line break after it. -/
def ofLines : List String → String
  | [] => ""
  | line :: rest => line ++ "\n" ++ ofLines rest

/-- The lines of a text. The last one is what follows the last line break. -/
def linesOf (text : String) : List String :=
  (splitOn '\n' text.toList).map String.ofList

theorem ofLines_append (lines others : List String) :
    ofLines (lines ++ others) = ofLines lines ++ ofLines others := by
  induction lines with
  | nil => rw [List.nil_append, ofLines, String.empty_append]
  | cons line rest ih => simp only [List.cons_append, ofLines, ih, String.append_assoc]

/-- Lines without line breaks are read back from the text that they make. -/
theorem linesOf_ofLines {lines : List String} (alone : ∀ line ∈ lines, '\n' ∉ line.toList) :
    linesOf (ofLines lines) = lines ++ [""] := by
  induction lines with
  | nil => rfl
  | cons line rest ih =>
    obtain ⟨here, below⟩ := List.forall_mem_cons.1 alone
    have cut : splitOn '\n' (ofLines (line :: rest)).toList =
        line.toList :: splitOn '\n' (ofLines rest).toList := by
      have first : (ofLines (line :: rest)).toList =
          line.toList ++ '\n' :: (ofLines rest).toList := by
        simp [ofLines]
      rw [first, splitOn_append_cons, splitOn_of_notMem here, List.singleton_append]
    rw [linesOf, cut, List.map_cons, String.ofList_toList, List.cons_append, ← ih below, linesOf]

end Text

namespace PageRecord

/-- The texts of a page that the report shows. -/
def shownTexts (page : PageRecord) : List String :=
  page.route :: page.path.text ::
    ((page.configText? "title").toList ++ (page.configText? "description").toList ++ page.warnings)

/-- Whether a character stands in none of the texts of a page that the report shows. -/
def Lacks (page : PageRecord) (c : Char) : Prop :=
  ∀ text ∈ page.shownTexts, c ∉ text.toList

instance (page : PageRecord) (c : Char) : Decidable (page.Lacks c) :=
  List.decidableBAll _ page.shownTexts

section Lacks

variable {page : PageRecord} {c : Char} {text : String} (h : page.Lacks c)
include h

theorem Lacks.route : c ∉ page.route.toList :=
  h page.route List.mem_cons_self

theorem Lacks.path : c ∉ page.path.text.toList :=
  h page.path.text (List.mem_cons_of_mem _ List.mem_cons_self)

theorem Lacks.title (read : text ∈ page.configText? "title") : c ∉ text.toList :=
  h text (by simp [shownTexts, Option.mem_def.1 read])

theorem Lacks.description (read : text ∈ page.configText? "description") : c ∉ text.toList :=
  h text (by simp [shownTexts, Option.mem_def.1 read])

theorem Lacks.warning (hw : text ∈ page.warnings) : c ∉ text.toList :=
  h text (by simp [shownTexts, hw])

end Lacks

end PageRecord

namespace Report

open Text (ofLines linesOf)

/-! ### What a block says -/

/-- The name of the source of a page's configuration. -/
inductive NamesSource (page : PageRecord) : String → Prop where
  | none (missing : page.config = none) : NamesSource page "none"
  | metadata {config : Json} (given : page.config = some config)
      (madeUp : page.usesFallback = true) : NamesSource page "metadata"
  | llmstxt {config : Json} (given : page.config = some config)
      (own : page.usesFallback = false) : NamesSource page "llmstxt"

/-- The line about a text of the configuration, where there is such a text. -/
inductive TellsText (page : PageRecord) (key : String) : List String → Prop where
  | given {text : String} (h : page.HasText key text) :
      TellsText page key [key ++ ": " ++ text]
  | missing (h : ∀ text, ¬ page.HasText key text) : TellsText page key []

/-- The lines about the configuration of a page. -/
inductive Tells (page : PageRecord) : List String → Prop where
  | intro {source : String} {titles descriptions : List String} (named : NamesSource page source)
      (titled : TellsText page "title" titles)
      (described : TellsText page "description" descriptions) :
      Tells page (("source: " ++ source) :: (titles ++ descriptions))

/-- Whether a line has the given mark at its start. -/
def HasMark (mark line : String) : Prop :=
  mark.toList <+: line.toList

/-- Whether a line has the sign of a warning behind its mark and two blanks. -/
def IsSigned (line : String) : Prop :=
  warningSign.toList <+: line.toList.drop 5

/-- The block of a page: its header, and the lines below it. -/
structure IsBlock (root : Path) (page : PageRecord) (header : String) (lines : List String) :
    Prop where
  header_eq : ∃ shown, page.path.IsShownAs root shown ∧ header = page.route ++ " " ++ shown
  /-- The lines tell of the configuration and then of the warnings, and the last one closes the
  branch. -/
  told : ∃ facts before last, Tells page facts ∧
    before ++ [last] =
      facts.map ("  " ++ ·) ++ page.warnings.map ("  " ++ warningSign ++ " " ++ ·) ∧
    lines = before.map (teeMark ++ ·) ++ [closingMark ++ last]
  closing_iff : ∀ (i : Nat) (line : String), lines[i]? = some line →
    (HasMark closingMark line ↔ i + 1 = lines.length)
  tee_iff : ∀ (i : Nat) (line : String), lines[i]? = some line →
    (HasMark teeMark line ↔ i + 1 < lines.length)
  signed_iff : ∀ (i : Nat) (line : String), lines[i]? = some line →
    (IsSigned line ↔ lines.length ≤ i + page.warnings.length)

variable {root : Path} {page : PageRecord} {pages : List PageRecord}

/-- The source that is printed is the source of the configuration. -/
theorem namesSource_name (page : PageRecord) : NamesSource page (Source.ofRecord page).name := by
  cases given : page.config with
  | none =>
    have source : Source.ofRecord page = .none := by simp [Source.ofRecord, given]
    rw [source]
    exact .none given
  | some config =>
    cases made : page.usesFallback with
    | true =>
      have source : Source.ofRecord page = .metadata := by simp [Source.ofRecord, given, made]
      rw [source]
      exact .metadata given made
    | false =>
      have source : Source.ofRecord page = .llmstxt := by simp [Source.ofRecord, given, made]
      rw [source]
      exact .llmstxt given made

/-- A text of the configuration is told in a line of its own. -/
theorem tellsText_configText? (page : PageRecord) (key : String) :
    TellsText page key ((page.configText? key).toList.map (key ++ ": " ++ ·)) := by
  cases read : page.configText? key with
  | none =>
    apply TellsText.missing
    intro text h
    rw [PageRecord.configText?_eq_some_iff.2 h] at read
    cases read
  | some text => exact .given (PageRecord.configText?_eq_some_iff.1 read)

theorem tells_facts (page : PageRecord) : Tells page (facts page) :=
  .intro (namesSource_name page) (tellsText_configText? page "title")
    (tellsText_configText? page "description")

/-- What is told of the configuration does not start with the sign of a warning. -/
theorem Tells.not_sign {facts : List String} (h : Tells page facts) :
    ∀ fact ∈ facts, ¬ warningSign.toList <+: fact.toList := by
  have other {word : String} {c : Char} (start : word.toList.head? = some c) (plain : c ≠ '⚠')
      (text : String) : ¬ warningSign.toList <+: (word ++ text).toList := by
    rintro ⟨rest, same⟩
    have first := congrArg List.head? same
    rw [String.toList_append, List.head?_append, List.head?_append, start] at first
    exact plain (Option.some.inj first).symm
  intro fact hf
  obtain ⟨named, titled, described⟩ := h
  rw [List.mem_cons, List.mem_append] at hf
  obtain rfl | hf | hf := hf
  · exact other (c := 's') rfl (by decide) _
  · cases titled with
    | given h =>
      rw [List.mem_singleton.1 hf, String.append_assoc]
      exact other (c := 't') rfl (by decide) _
    | missing h => cases hf
  · cases described with
    | given h =>
      rw [List.mem_singleton.1 hf, String.append_assoc]
      exact other (c := 'd') rfl (by decide) _
    | missing h => cases hf

/-- There are more lines about a page than warnings. -/
theorem length_warnings_lt (page : PageRecord) : page.warnings.length < (details page).length := by
  simp only [details, facts, List.length_append, List.length_cons]
  omega

/-! ### The lines of a block -/

section Numbers

variable {f : String × Nat → String} {h : String → String} {texts : List String} {start : Nat}

/-- What does not depend on the numbers of texts can be made without them. -/
theorem map_zipIdx_eq_map
    (same : ∀ text i, start ≤ i → i < start + texts.length → f (text, i) = h text) :
    (texts.zipIdx start).map f = texts.map h := by
  apply List.ext_getElem
  · simp
  · intro i hi hi'
    rw [List.length_map] at hi'
    simp only [List.getElem_map, List.getElem_zipIdx]
    apply same <;> omega

/-- What stands before texts of a list can be put there after the texts were made. -/
theorem map_zipIdx_append (mark : Nat → String) (body : Nat → String → String)
    (texts : List String) :
    (texts.zipIdx.map fun line => mark line.2 ++ body line.2 line.1) =
      (texts.zipIdx.map fun line => body line.2 line.1).zipIdx.map fun line =>
        mark line.2 ++ line.1 := by
  apply List.ext_getElem
  · simp
  · intro i hi hi'
    simp only [List.getElem_map, List.getElem_zipIdx, Nat.zero_add]

end Numbers

/-- The text that stands behind the mark of a line. -/
def bodyAt (count warnings number : Nat) (text : String) : String :=
  if count - warnings ≤ number then "  " ++ warningSign ++ " " ++ text else "  " ++ text

/-- What stands behind the marks of the lines about a page. -/
def bodies (page : PageRecord) : List String :=
  (facts page).map ("  " ++ ·) ++ page.warnings.map ("  " ++ warningSign ++ " " ++ ·)

/-- The lines about a page with their marks. -/
def detailTexts (page : PageRecord) : List String :=
  let count := (details page).length
  (details page).zipIdx.map fun line =>
    markAt count line.2 ++ bodyAt count page.warnings.length line.2 line.1

/-- The lines of the block of a page. -/
def blockLines (root : Path) (page : PageRecord) : List String :=
  (page.route ++ " " ++ page.path.display root) :: (detailTexts page ++ [""])

/-- The sign stands before the warnings, which are the last lines about a page. -/
theorem map_bodyAt (told warnings : List String) :
    ((told ++ warnings).zipIdx.map fun line =>
      bodyAt (told ++ warnings).length warnings.length line.2 line.1) =
      told.map ("  " ++ ·) ++ warnings.map ("  " ++ warningSign ++ " " ++ ·) := by
  rw [List.zipIdx_append, List.map_append, Nat.zero_add, List.length_append]
  congr 1
  · apply map_zipIdx_eq_map
    intro text i _ hi
    exact if_neg (by omega)
  · apply map_zipIdx_eq_map
    intro text i hi _
    exact if_pos (by omega)

/-- The closing mark stands before the last line, and the other mark before the others. -/
theorem map_markAt (before : List String) (last : String) :
    ((before ++ [last]).zipIdx.map fun line =>
      markAt (before ++ [last]).length line.2 ++ line.1) =
      before.map (teeMark ++ ·) ++ [closingMark ++ last] := by
  rw [List.zipIdx_append, List.map_append, Nat.zero_add, List.length_append, List.length_singleton]
  congr 1
  · apply map_zipIdx_eq_map
    intro text i _ hi
    rw [markAt, if_neg (by omega)]
  · rw [List.zipIdx_singleton, List.map_singleton, markAt, if_pos (by omega)]

/-- The lines about a page are told of in order, and the last one closes the branch. -/
theorem exists_detailTexts (page : PageRecord) :
    ∃ before last, before ++ [last] = bodies page ∧
      detailTexts page = before.map (teeMark ++ ·) ++ [closingMark ++ last] := by
  have filled : bodies page ≠ [] := by simp [bodies, facts]
  have parts := List.dropLast_append_getLast filled
  have count : (details page).length = (bodies page).length := by
    rw [bodies, details]
    simp
  have signed : ((details page).zipIdx.map fun line =>
      bodyAt (bodies page).length page.warnings.length line.2 line.1) = bodies page := by
    rw [← count]
    exact map_bodyAt (facts page) page.warnings
  refine ⟨_, _, parts, ?_⟩
  rw [← map_markAt, parts]
  calc detailTexts page
      = (details page).zipIdx.map fun line => markAt (bodies page).length line.2 ++
          bodyAt (bodies page).length page.warnings.length line.2 line.1 := by
        rw [detailTexts, count]
    _ = ((details page).zipIdx.map fun line =>
          bodyAt (bodies page).length page.warnings.length line.2 line.1).zipIdx.map
            fun line => markAt (bodies page).length line.2 ++ line.1 :=
        map_zipIdx_append (markAt _) (bodyAt _ _) _
    _ = (bodies page).zipIdx.map fun line => markAt (bodies page).length line.2 ++ line.1 := by
        rw [signed]

theorem length_detailTexts (page : PageRecord) :
    (detailTexts page).length = (details page).length := by
  simp [detailTexts]

/-- The line with a given number. -/
theorem getElem?_detailTexts {i : Nat} {line : String} (here : (detailTexts page)[i]? = some line) :
    i < (details page).length ∧ ∃ text, (details page)[i]? = some text ∧
      line = markAt (details page).length i ++
        bodyAt (details page).length page.warnings.length i text := by
  simp only [detailTexts, List.getElem?_map, List.getElem?_zipIdx, Option.map_map, Nat.zero_add,
    Option.map_eq_some_iff, Function.comp_apply] at here
  obtain ⟨text, found, rfl⟩ := here
  exact ⟨(List.getElem?_eq_some_iff.1 found).1, text, found, rfl⟩

/-- The two marks cannot be taken for each other. -/
theorem hasMark_markAt (count number : Nat) (text : String) :
    (HasMark closingMark (markAt count number ++ text) ↔ number = count - 1) ∧
      (HasMark teeMark (markAt count number ++ text) ↔ number ≠ count - 1) := by
  rw [HasMark, HasMark, String.toList_append, markAt]
  by_cases final : number = count - 1
  · simp [final, teeMark, closingMark]
  · simp [final, teeMark, closingMark]

/-- The sign stands where the mark and two blanks end. -/
theorem isSigned_markAt (count number : Nat) (text : String) :
    IsSigned (markAt count number ++ ("  " ++ text)) ↔ warningSign.toList <+: text.toList := by
  have rest : (markAt count number ++ ("  " ++ text)).toList.drop 5 = text.toList := by
    rw [markAt]
    split <;> simp [teeMark, closingMark]
  rw [IsSigned, rest]

/-- What is printed about a page is its block. -/
theorem isBlock_detailTexts (root : Path) (page : PageRecord) :
    IsBlock root page (page.route ++ " " ++ page.path.display root) (detailTexts page) := by
  have total := length_detailTexts page
  constructor
  · exact ⟨_, Path.isShownAs_display page.path root, rfl⟩
  · obtain ⟨before, last, parts, made⟩ := exists_detailTexts page
    exact ⟨facts page, before, last, tells_facts page, parts, made⟩
  · intro i line here
    obtain ⟨inside, text, -, rfl⟩ := getElem?_detailTexts here
    rw [(hasMark_markAt _ i _).1, total]
    omega
  · intro i line here
    obtain ⟨inside, text, -, rfl⟩ := getElem?_detailTexts here
    rw [(hasMark_markAt _ i _).2, total]
    omega
  · intro i line here
    obtain ⟨inside, text, told, rfl⟩ := getElem?_detailTexts here
    have count : (details page).length = (facts page).length + page.warnings.length := by
      rw [details, List.length_append]
    rw [total, bodyAt]
    split
    · next warned =>
      rw [String.append_assoc, String.append_assoc, isSigned_markAt, String.toList_append]
      constructor
      · intro _
        omega
      · intro _
        exact List.prefix_append _ _
    · next early =>
      have told' : text ∈ facts page := by
        rw [details, List.getElem?_append_left (by omega)] at told
        exact List.mem_of_getElem? told
      rw [isSigned_markAt, iff_false_intro ((tells_facts page).not_sign text told'), false_iff]
      omega

example : detailTexts { PageRecord.blank "/about" ⟨"about/page.tsx"⟩ with
    config := some (.obj [("title", .str "About")]), warnings := ["broken", "made up"] } =
    ["├──  source: llmstxt", "├──  title: About", "├──  ⚠ broken", "└──  ⚠ made up"] :=
  rfl

/-! ### The lines of the report -/

/-- The lines of the totals. -/
def totalLines (pages : List PageRecord) : List String :=
  [String.ofList (List.replicate 60 '─'), "Summary",
    "  llmstxt exports: " ++ toString (primaryCount pages),
    "  metadata fallbacks: " ++ toString (fallbackCount pages),
    "  without config: " ++ toString (missingCount pages),
    "  warnings: " ++ toString (warningCount pages)]

/-- Parts that are lines each make a text of lines. -/
theorem plainText_flatMap {α : Type} {spans : α → List Span} {lines : α → List String}
    (h : ∀ a, plainText (spans a) = ofLines (lines a)) (as : List α) :
    plainText (as.flatMap spans) = ofLines (as.flatMap lines) := by
  induction as with
  | nil => rfl
  | cons a as ih =>
    rw [List.flatMap_cons, List.flatMap_cons, plainText_append, Text.ofLines_append, h, ih]

theorem plainText_detailLines (page : PageRecord) :
    plainText (detailLines page) = ofLines (detailTexts page) := by
  rw [detailLines, detailTexts, List.map_eq_flatMap]
  apply plainText_flatMap
  intro line
  rw [detailLine, bodyAt]
  split <;> simp [ofLines, Span.ofText, String.append_assoc]

theorem plainText_pageBlock (root : Path) (page : PageRecord) :
    plainText (pageBlock root page) = ofLines (blockLines root page) := by
  rw [pageBlock, blockLines, ofLines, Text.ofLines_append, ← plainText_detailLines]
  simp [ofLines, Span.ofText, String.append_assoc]

theorem plainText_summary (pages : List PageRecord) :
    plainText (summary pages) = ofLines (totalLines pages) := by
  rw [summary, totalLines]
  -- What the rule is made of does not matter here.
  generalize String.ofList (List.replicate 60 '─') = rule
  rw [← String.toList_inj]
  simp [totalLine, ofLines, Span.ofText]

/-- The report is a text of lines. -/
theorem plainText_tree (root : Path) (pages : List PageRecord) :
    plainText (tree root pages) =
      ofLines (("● Discovered " ++ toString pages.length ++ " pages") :: "" ::
        (pages.flatMap (blockLines root) ++ totalLines pages)) := by
  have blocks := plainText_flatMap (plainText_pageBlock root) pages
  rw [tree, plainText_append, plainText_append, blocks, plainText_summary, ofLines, ofLines,
    Text.ofLines_append, ← String.toList_inj]
  simp [Span.ofText]

/-! ### Characters that the report does not bring in -/

section Control

variable {c : Char} (control : c.toNat < 32)
include control

/-- A control character is in no text whose characters are all shown. -/
theorem notMem_of_shown {text : String} (shown : text.toList.all (32 ≤ ·.toNat) = true) :
    c ∉ text.toList := by
  intro here
  have bound := List.all_eq_true.1 shown c here
  rw [decide_eq_true_iff] at bound
  omega

omit control in
/-- The characters of the rule above the totals are shown. -/
theorem shown_rule : (String.ofList (List.replicate 60 '─')).toList.all (32 ≤ ·.toNat) = true := by
  rw [String.toList_ofList, List.all_replicate]
  rfl

theorem notMem_toString (n : Nat) : c ∉ (toString n).toList := by
  intro here
  have digits : (toString n).toList = Nat.toDigits 10 n := by
    rw [Nat.toString_eq_repr, Nat.toList_repr]
  rw [digits] at here
  have digit := Nat.isDigit_of_mem_toDigits (by decide) (by decide) here
  rw [Char.isDigit_iff_toNat] at digit
  have first : '0'.toNat = 48 := rfl
  omega

theorem notMem_markAt (count number : Nat) : c ∉ (markAt count number).toList := by
  rw [markAt]
  split
  · exact notMem_of_shown control rfl
  · exact notMem_of_shown control rfl

variable {root : Path} {page : PageRecord} {pages : List PageRecord} (lacks : page.Lacks c)
include lacks

omit control in
theorem notMem_display : c ∉ (page.path.display root).toList := by
  intro here
  exact lacks.path (Path.mem_of_mem_display here)

theorem notMem_facts : ∀ fact ∈ facts page, c ∉ fact.toList := by
  have worded {word : String} {given : Option String}
      (shown : word.toList.all (32 ≤ ·.toNat) = true) (free : ∀ text ∈ given, c ∉ text.toList) :
      ∀ fact ∈ given.toList.map (word ++ ·), c ∉ fact.toList := by
    intro fact hf
    rw [List.mem_map] at hf
    obtain ⟨text, ht, rfl⟩ := hf
    rw [String.toList_append, List.mem_append, not_or]
    exact ⟨notMem_of_shown control shown, free text (Option.mem_toList.1 ht)⟩
  intro fact hf
  rw [facts, List.mem_cons, List.mem_append] at hf
  obtain rfl | hf | hf := hf
  · apply notMem_of_shown control
    cases Source.ofRecord page <;> rfl
  · exact worded rfl (fun _ => lacks.title) fact hf
  · exact worded rfl (fun _ => lacks.description) fact hf

theorem notMem_details : ∀ text ∈ details page, c ∉ text.toList := by
  intro text ht
  obtain hf | hw := List.mem_append.1 ht
  · exact notMem_facts control lacks text hf
  · exact lacks.warning hw

theorem notMem_detailTexts : ∀ line ∈ detailTexts page, c ∉ line.toList := by
  intro line hl
  obtain ⟨i, here⟩ := List.mem_iff_getElem?.1 hl
  obtain ⟨-, text, found, rfl⟩ := getElem?_detailTexts here
  rw [String.toList_append, List.mem_append, not_or]
  constructor
  · exact notMem_markAt control _ i
  · have free := notMem_details control lacks text (List.mem_of_getElem? found)
    rw [bodyAt]
    split <;> rw [String.toList_append, List.mem_append, not_or]
    · exact ⟨notMem_of_shown control rfl, free⟩
    · exact ⟨notMem_of_shown control rfl, free⟩

theorem notMem_blockLines : ∀ line ∈ blockLines root page, c ∉ line.toList := by
  intro line hl
  rw [blockLines, List.mem_cons, List.mem_append, List.mem_singleton] at hl
  obtain rfl | hl | rfl := hl
  · simp only [String.toList_append, List.mem_append, not_or]
    exact ⟨⟨lacks.route, notMem_of_shown control rfl⟩, notMem_display lacks⟩
  · exact notMem_detailTexts control lacks line hl
  · exact List.not_mem_nil

omit lacks in
theorem notMem_totalLines (pages : List PageRecord) :
    ∀ line ∈ totalLines pages, c ∉ line.toList := by
  have counted {label : String} (shown : label.toList.all (32 ≤ ·.toNat) = true) (n : Nat) :
      c ∉ (label ++ toString n).toList := by
    rw [String.toList_append, List.mem_append, not_or]
    exact ⟨notMem_of_shown control shown, notMem_toString control n⟩
  simp only [totalLines, List.forall_mem_cons]
  exact ⟨notMem_of_shown control shown_rule, notMem_of_shown control (by simp),
    counted (by simp) _, counted (by simp) _, counted (by simp) _, counted (by simp) _,
    List.forall_mem_nil _⟩

end Control

/-- The lines of the report without styles. When no text of a page has a line break, they are two
lines at the start, a block for each page in order, with a blank line after it, and the totals. What
is subtracted from the number of lines about a page is never more than that number. -/
theorem linesOf_tree (root : Path) (pages : List PageRecord) :
    (∀ page : PageRecord,
      1 ≤ (details page).length ∧ page.warnings.length ≤ (details page).length) ∧
    ((∀ page ∈ pages, page.Lacks '\n') →
      ∃ blocks : List (String × List String),
        List.Forall₂ (fun page block => IsBlock root page block.1 block.2) pages blocks ∧
        linesOf (spansText false (tree root pages)) =
          ("● Discovered " ++ toString pages.length ++ " pages") :: "" ::
            (blocks.flatMap (fun block => block.1 :: (block.2 ++ [""])) ++ totalLines pages ++
              [""])) := by
  refine ⟨fun page => ?_, fun lacks => ?_⟩
  · have more := length_warnings_lt page
    constructor <;> omega
  have control : '\n'.toNat < 32 := by decide
  refine ⟨pages.map fun page =>
    (page.route ++ " " ++ page.path.display root, detailTexts page), ?_, ?_⟩
  · rw [List.forall₂_map_right_iff, List.forall₂_same]
    intro page _
    exact isBlock_detailTexts root page
  · have alone : ∀ line ∈ ("● Discovered " ++ toString pages.length ++ " pages") :: "" ::
        (pages.flatMap (blockLines root) ++ totalLines pages), '\n' ∉ line.toList := by
      simp only [List.forall_mem_cons, List.forall_mem_append]
      refine ⟨?_, List.not_mem_nil, ?_, notMem_totalLines control pages⟩
      · simp only [String.toList_append, List.mem_append, not_or]
        exact ⟨⟨notMem_of_shown control rfl, notMem_toString control _⟩,
          notMem_of_shown control rfl⟩
      · intro line hl
        obtain ⟨page, hp, hl⟩ := List.mem_flatMap.1 hl
        exact notMem_blockLines control (lacks page hp) line hl
    rw [spansText, if_neg Bool.false_ne_true, plainText_tree, Text.linesOf_ofLines alone,
      List.flatMap_map]
    rfl

/-- A page with a configuration of its own, and a page with nothing but a warning. -/
def twoPages : List PageRecord :=
  [{ PageRecord.blank "/" ⟨"/project/app/page.tsx"⟩ with
      hasPrimary := true
      config := some (.obj [("title", .str "Home"), ("description", .str "Welcome")]) },
    { PageRecord.blank "/about" ⟨"/elsewhere/about/page.tsx"⟩ with
      warnings := ["nothing here (/about)"] }]

/-- The lines of a report about two pages. -/
theorem linesOf_tree_twoPages :
    (∀ page ∈ twoPages, page.Lacks '\n') ∧
    ∃ blocks : List (String × List String),
      List.Forall₂ (fun page block => IsBlock ⟨"/project"⟩ page block.1 block.2) twoPages blocks ∧
      linesOf (spansText false (tree ⟨"/project"⟩ twoPages)) =
        ("● Discovered " ++ toString twoPages.length ++ " pages") :: "" ::
          (blocks.flatMap (fun block => block.1 :: (block.2 ++ [""])) ++ totalLines twoPages ++
            [""]) := by
  have lacks : ∀ page ∈ twoPages, page.Lacks '\n' := by decide
  exact ⟨lacks, (linesOf_tree ⟨"/project"⟩ twoPages).2 lacks⟩

end Report

end PageIndex
