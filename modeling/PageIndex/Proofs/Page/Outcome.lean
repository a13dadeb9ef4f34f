import Mathlib.Data.List.Basic
import PageIndex.Page.Analysis

/-!
# What a record tells about a page

The analysis of a page ends in one of four ways: the file gives no module, the configuration is
found, one is made up from the metadata, or there is neither. The main statement is
`analyze_tells_lookups`. It reads off the record of a page whether its file gave a module and what
the two lookups found, from each part of the record and for each of its warnings.
-/

namespace PageIndex

/-- Different errors have different messages. -/
theorem FileError.message_injective : Function.Injective FileError.message := by
  intro e e' h
  cases e <;> cases e' <;> first | rfl | exact absurd h (by decide)

/-- Different reasons why a file gives no module have different messages. -/
theorem SourceError.message_injective (p : Path) :
    Function.Injective (SourceError.message p) := by
  have differ (e : FileError) :
      SourceError.message p (.unreadable e) ≠ SourceError.message p .malformed := by
    intro h
    have texts : "Failed to read " ++ p.text ++ ": " ++ e.message =
        "Failed to parse " ++ p.text ++ ": <syntax error>" := h
    have letters := congrArg (·.toList[10]?) texts
    simp at letters
  intro e e' h
  cases e with
  | unreadable f =>
    cases e' with
    | unreadable f' =>
      have same : f.message = f'.message := (String.append_right_inj _).1 h
      rw [FileError.message_injective same]
    | malformed => exact absurd h (differ f)
  | malformed =>
    cases e' with
    | unreadable f' => exact absurd h.symm (differ f')
    | malformed => rfl

namespace Page

private theorem Warning.head?_message (p : Path) (w : Warning) :
    (w.message p).toList.head? = some (match w with
      | .madeUp => 'U'
      | .noExports => 'N'
      | .unresolved => 'l'
      | .broken _ => 'F') := by
  cases w with
  | broken e =>
    show ("Failed to analyze page: " ++ e.message p).toList.head? = some 'F'
    simp
  | madeUp =>
    have text : Warning.madeUp.message p = "Using metadata fallback for llms.txt generation" ++
        " - consider adding explicit llmstxt export" := rfl
    simp [text]
  | noExports =>
    have text : Warning.noExports.message p =
        "No llms.txt export or metadata found - cannot generate llms.txt entry" := rfl
    simp [text]
  | unresolved =>
    have text : Warning.unresolved.message p =
        "llmstxt export could not be statically resolved" := rfl
    simp [text]

/-- Different warnings about one page have different messages. -/
theorem Warning.message_injective (p : Path) : Function.Injective (Warning.message p) := by
  intro w w' h
  have letters := congrArg (·.toList.head?) h
  simp only [head?_message] at letters
  cases w <;> cases w'
  case broken.broken e e' =>
    have same : e.message p = e'.message p := (String.append_right_inj _).1 h
    rw [SourceError.message_injective p same]
  all_goals simp at letters ⊢

/-- Different warnings about one page are shown differently. -/
theorem Warning.text_injective (page : PageFile) :
    Function.Injective fun w : Warning => w.text page := by
  intro w w' h
  have same : "[next-llms-txt] " ++ w.message page.path ++ " (" ++ page.route ++ ")" =
      "[next-llms-txt] " ++ w'.message page.path ++ " (" ++ page.route ++ ")" := h
  simp only [String.append_left_inj, String.append_right_inj] at same
  exact Warning.message_injective page.path same

section Outcome

variable (aliases : AliasTable) (tree : FileTree) (page : PageFile)

/-- What the lookup of an export of a page gives. A file without a module has no exports. -/
def lookup? (name : String) : Option Json :=
  match tree.readModule page.path with
  | .ok m => (Codebase.ofTree aliases tree).exportValue? [] page.path m name
  | .error _ => none

/-- Whether the file of a page has a module that declares an export by its name. -/
def Declares (name : String) : Prop :=
  ∃ m, tree.readModule page.path = .ok m ∧ m.declaresExport name = true

/-- The ways in which the analysis of a page ends, with the record in each of them. -/
inductive Outcome : PageRecord → Prop where
  /-- The file gives no module. -/
  | broken (e : SourceError) (unread : tree.readModule page.path = .error e) :
    Outcome
      { PageRecord.blank page.route page.path with warnings := [(Warning.broken e).text page] }
  /-- The configuration is found. -/
  | found (m : Script.Module) (config : Json) (read : tree.readModule page.path = .ok m)
      (primary : lookup? aliases tree page primaryExport = some config) :
    Outcome (foundRecord page m config)
  /-- A configuration is made up from the metadata. -/
  | madeUp (m : Script.Module) (metadata : Json) (read : tree.readModule page.path = .ok m)
      (primary : lookup? aliases tree page primaryExport = none)
      (fallback : lookup? aliases tree page fallbackExport = some metadata) :
    Outcome (madeUpRecord page m metadata)
  /-- There is neither a configuration nor metadata. -/
  | empty (m : Script.Module) (read : tree.readModule page.path = .ok m)
      (primary : lookup? aliases tree page primaryExport = none)
      (fallback : lookup? aliases tree page fallbackExport = none) :
    Outcome (emptyRecord page m)

/-- The analysis of a page ends in one of these ways. -/
theorem outcome_analyze : Outcome aliases tree page (analyze aliases tree page) := by
  unfold analyze
  cases read : tree.readModule page.path with
  | error e => exact .broken e read
  | ok m =>
    have looked (name : String) : lookup? aliases tree page name =
        (Codebase.ofTree aliases tree).exportValue? [] page.path m name := by
      simp only [lookup?, read]
    simp only [recordOf]
    rw [← looked, ← looked]
    cases primary : lookup? aliases tree page primaryExport with
    | some config => exact .found m config read primary
    | none =>
      cases fallback : lookup? aliases tree page fallbackExport with
      | some metadata => exact .madeUp m metadata read primary fallback
      | none => exact .empty m read primary fallback

/-- What makes the analysis of a page give a warning. -/
def Warning.Applies : Warning → Prop
  | .madeUp =>
    (∃ m, tree.readModule page.path = .ok m) ∧
      lookup? aliases tree page primaryExport = none ∧
      ∃ metadata, lookup? aliases tree page fallbackExport = some metadata
  | .noExports =>
    (∃ m, tree.readModule page.path = .ok m) ∧ ¬ Declares tree page primaryExport ∧
      lookup? aliases tree page primaryExport = none ∧
      lookup? aliases tree page fallbackExport = none
  | .unresolved =>
    Declares tree page primaryExport ∧ lookup? aliases tree page primaryExport = none
  | .broken e => tree.readModule page.path = .error e

variable {aliases tree page} {r : PageRecord}

private theorem lookup?_of_error {e : SourceError} (unread : tree.readModule page.path = .error e)
    (name : String) : lookup? aliases tree page name = none := by
  simp only [lookup?, unread]

private theorem declares_iff {m : Script.Module} (read : tree.readModule page.path = .ok m)
    (name : String) : Declares tree page name ↔ m.declaresExport name = true := by
  simp [Declares, read]

/-- A record is about the page that was analyzed. -/
theorem Outcome.page_eq (h : Outcome aliases tree page r) :
    r.route = page.route ∧ r.path = page.path := by
  cases h <;> exact ⟨rfl, rfl⟩

/-- A record without warnings, or one whose configuration was not made up, is one for which the
configuration was found. -/
theorem Outcome.found_iff (h : Outcome aliases tree page r) :
    (r.config.isSome = true ∧ r.usesFallback = false ↔
      ∃ config, lookup? aliases tree page primaryExport = some config) ∧
    (r.warnings = [] ↔ ∃ config, lookup? aliases tree page primaryExport = some config) := by
  cases h with
  | broken e unread => simp [PageRecord.blank, lookup?_of_error unread]
  | found m config read primary => simp [foundRecord, PageRecord.blank, primary]
  | madeUp m metadata read primary fallback => simp [madeUpRecord, primary]
  | empty m read primary fallback => simp [emptyRecord, PageRecord.blank, primary]

/-- The configuration that is found is the configuration of the record. -/
theorem Outcome.config_of_primary (h : Outcome aliases tree page r) {config : Json}
    (hp : lookup? aliases tree page primaryExport = some config) :
    r.config = some config ∧ r.hasPrimary = true := by
  cases h with
  | broken e unread => simp [lookup?_of_error unread] at hp
  | found m config read primary =>
    rw [primary] at hp
    exact ⟨hp, rfl⟩
  | madeUp m metadata read primary fallback => simp [primary] at hp
  | empty m read primary fallback => simp [primary] at hp

/-- A configuration is made up when there is metadata only. -/
theorem Outcome.usesFallback_iff (h : Outcome aliases tree page r) :
    r.usesFallback = true ↔ Warning.madeUp.Applies aliases tree page := by
  cases h with
  | broken e unread => simp [PageRecord.blank, Warning.Applies, lookup?_of_error unread]
  | found m config read primary =>
    simp [foundRecord, PageRecord.blank, Warning.Applies, primary]
  | madeUp m metadata read primary fallback =>
    simp [madeUpRecord, Warning.Applies, read, primary, fallback]
  | empty m read primary fallback =>
    simp [emptyRecord, PageRecord.blank, Warning.Applies, fallback]

/-- A record has the configuration that it says it made up, and the metadata for it. -/
theorem Outcome.config_of_usesFallback (h : Outcome aliases tree page r)
    (hf : r.usesFallback = true) : r.config.isSome = true ∧ r.hasFallback = true := by
  cases h with
  | broken e unread => cases hf
  | found m config read primary => cases hf
  | madeUp m metadata read primary fallback => exact ⟨rfl, rfl⟩
  | empty m read primary fallback => cases hf

/-- A record with a configuration has one of the two exports. -/
theorem Outcome.hasExport_of_config (h : Outcome aliases tree page r)
    (hc : r.config.isSome = true) : r.hasPrimary = true ∨ r.hasFallback = true := by
  cases h with
  | broken e unread => cases hc
  | found m config read primary => exact .inl rfl
  | madeUp m metadata read primary fallback => exact .inr rfl
  | empty m read primary fallback => cases hc

/-- A record has the warnings that apply to its page, and no others. -/
theorem Outcome.mem_warnings_iff (h : Outcome aliases tree page r) (w : Warning) :
    w.text page ∈ r.warnings ↔ w.Applies aliases tree page := by
  have mem_iff (ws : List Warning) : w.text page ∈ ws.map (·.text page) ↔ w ∈ ws :=
    List.mem_map_of_injective (Warning.text_injective page)
  cases h with
  | broken e unread =>
    refine (mem_iff [.broken e]).trans ?_
    cases w with
    | broken e' => simp [Warning.Applies, unread, eq_comm]
    | _ => simp [Warning.Applies, Declares, lookup?_of_error unread, unread]
  | found m config read primary =>
    refine (mem_iff []).trans ?_
    cases w <;> simp [Warning.Applies, read, primary]
  | madeUp m metadata read primary fallback =>
    refine (mem_iff _).trans ?_
    cases w <;> cases hd : m.declaresExport primaryExport <;>
      simp [Warning.Applies, declares_iff read, read, primary, fallback, hd]
  | empty m read primary fallback =>
    refine (mem_iff [_]).trans ?_
    cases w <;> cases hd : m.declaresExport primaryExport <;>
      simp [Warning.Applies, declares_iff read, read, primary, fallback, hd]

/-- The warnings that a record can have together. -/
theorem Outcome.warnings_cases (h : Outcome aliases tree page r) :
    ∃ ws : List Warning, r.warnings = ws.map (·.text page) ∧
      (ws = [] ∨ ws = [.madeUp] ∨ ws = [.unresolved, .madeUp] ∨ ws = [.unresolved] ∨
        ws = [.noExports] ∨ ∃ e, ws = [.broken e]) := by
  cases h with
  | broken e unread => exact ⟨[.broken e], rfl, by simp⟩
  | found m config read primary => exact ⟨[], rfl, by simp⟩
  | madeUp m metadata read primary fallback =>
    refine ⟨_, rfl, ?_⟩
    cases m.declaresExport primaryExport <;> simp
  | empty m read primary fallback =>
    refine ⟨[_], rfl, ?_⟩
    cases m.declaresExport primaryExport <;> simp

/-- The warning that a configuration was made up comes last. -/
theorem Outcome.getLast?_warnings_iff (h : Outcome aliases tree page r) :
    r.warnings.getLast? = some (Warning.madeUp.text page) ↔ r.usesFallback = true := by
  constructor
  · intro last
    rw [h.usesFallback_iff, ← h.mem_warnings_iff]
    exact List.mem_of_getLast? last
  · intro hf
    cases h with
    | broken e unread => cases hf
    | found m config read primary => cases hf
    | madeUp m metadata read primary fallback => simp [madeUpRecord]
    | empty m read primary fallback => cases hf

end Outcome

/-- What the record of a page tells. It has a configuration that was not made up, or no warnings,
exactly when the configuration was found, and then it has that one. It has a configuration that was
made up exactly when the file gives a module, the configuration was not found and the metadata was.
Without one of the two exports it has no configuration. Its warnings are those that apply to the
page, in one of six combinations, the one about the metadata last. -/
theorem analyze_tells_lookups (aliases : AliasTable) (tree : FileTree) (page : PageFile) :
    let r := analyze aliases tree page
    let primary := lookup? aliases tree page primaryExport
    let fallback := lookup? aliases tree page fallbackExport
    ((r.config.isSome = true ∧ r.usesFallback = false ↔ ∃ config, primary = some config) ∧
      (r.warnings = [] ↔ ∃ config, primary = some config) ∧
      ∀ config, primary = some config → r.config = some config ∧ r.hasPrimary = true) ∧
    ((r.usesFallback = true → r.config.isSome = true ∧ r.hasFallback = true) ∧
      (r.usesFallback = true ↔ (∃ m, tree.readModule page.path = .ok m) ∧ primary = none ∧
        ∃ metadata, fallback = some metadata)) ∧
    (r.config.isSome = true → r.hasPrimary = true ∨ r.hasFallback = true) ∧
    (∃ ws : List Warning, r.warnings = ws.map (·.text page) ∧
      (ws = [] ∨ ws = [.madeUp] ∨ ws = [.unresolved, .madeUp] ∨ ws = [.unresolved] ∨
        ws = [.noExports] ∨ ∃ e, ws = [.broken e])) ∧
    (Warning.unresolved.text page ∈ r.warnings ↔
      Declares tree page primaryExport ∧ primary = none) ∧
    (r.warnings.getLast? = some (Warning.madeUp.text page) ↔ r.usesFallback = true) ∧
    (Warning.noExports.text page ∈ r.warnings ↔
      (∃ m, tree.readModule page.path = .ok m) ∧ ¬ Declares tree page primaryExport ∧
        primary = none ∧ fallback = none) ∧
    ∀ e, (Warning.broken e).text page ∈ r.warnings ↔ tree.readModule page.path = .error e := by
  intro r primary fallback
  have h : Outcome aliases tree page r := outcome_analyze aliases tree page
  refine ⟨⟨h.found_iff.1, h.found_iff.2, fun config hp => h.config_of_primary hp⟩,
    ⟨h.config_of_usesFallback, h.usesFallback_iff⟩, h.hasExport_of_config, h.warnings_cases,
    h.mem_warnings_iff .unresolved, h.getLast?_warnings_iff, h.mem_warnings_iff .noExports,
    fun e => h.mem_warnings_iff (.broken e)⟩

end Page

end PageIndex
