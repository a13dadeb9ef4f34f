import PageIndex.Engine
import PageIndex.Json.Text
import PageIndex.Report.Pages

/-!
# The command line

The two commands: one reports all pages with their configuration and their warnings, the other
writes the site index. A run ends with a status and what it writes. A report closes with a line
about the run itself, whose duration only the one who ran it knows.
-/

namespace PageIndex

/-- What a run is asked to do (`Commands`). -/
inductive Command where
  /-- Report the pages. -/
  | discover (options : Options)
  /-- Write the site index. -/
  | site (options : Options)
  /-- Show how the command is used. -/
  | help
deriving Repr

/-- How long a run took and how many threads it used, as it is shown. -/
structure Effort where
  milliseconds : String
  threads : String

/-- What a run leaves behind. -/
structure Outcome where
  status : Nat
  /-- What is written, apart from the closing line. -/
  output : List Span
  /-- The number of files that the closing line counts; without it there is no such line. -/
  files : Option Nat
  /-- What kept the run from being done. -/
  failure : Option FileError

namespace Outcome

/-- The closing line of a report. -/
def closing (o : Outcome) (effort : Effort) : List Span :=
  match o.files with
  | none => []
  | some count =>
    [.ofText "\n", ⟨Style.ofColour .brightBlue, "●"⟩, .ofText " Finished in ",
      ⟨Style.ofColour .cyan, effort.milliseconds⟩, .ofText "ms on ",
      ⟨Style.ofColour .cyan, toString count⟩, .ofText " files (using ",
      ⟨Style.ofColour .cyan, effort.threads⟩, .ofText " threads).\n"]

/-- All that a run writes. -/
def spans (o : Outcome) (effort : Effort) : List Span :=
  o.output ++ o.closing effort

end Outcome

namespace Command

/-- The status of a run that went well. -/
def success : Nat :=
  0

/-- The status of a run with warnings, where these are not accepted. -/
def warned : Nat :=
  1

/-- The status of a run that could not be done. -/
def failed : Nat :=
  1

/-- The status of a run that was asked for wrongly. -/
def misused : Nat :=
  2

/-- A command with the options that words give. A request for help in place of the options is
the command for help. -/
def ofOptions? (make : Options → Command) (words : List String) : Option Command :=
  match Options.ofWords words with
  | .ok options => some (make options)
  | .error .help => some .help
  | .error _ => none

/-- The command for help, which may name one command to be helped with. -/
def help? : List String → Option Command
  | [] => some .help
  | [word] => if ["discover", "site", "help"].contains word then some .help else none
  | _ => none

/-- The command that a command line asks for; there is none when it is wrong. -/
def ofWords? : List String → Option Command
  | [] => none
  | word :: rest =>
    if word = "discover" then ofOptions? .discover rest
    else if word = "site" then ofOptions? .site rest
    else if word = "help" then help? rest
    else if word = "--help" || word.toList.take 2 = ['-', 'h'] then some .help
    else none

/-- The outcome of a run that opens an engine. It fails, and nothing is written, when no engine can
be opened. -/
def onEngine (tree : FileTree) (options : Options) (act : Engine → Outcome) : Outcome :=
  match Engine.ofOptions tree options with
  | .ok engine => act engine
  | .error e => ⟨failed, [], none, some e⟩

/-- Runs a command on a tree of files (`main`). -/
def run (tree : FileTree) : Command → Outcome
  | .discover options => onEngine tree options fun engine =>
    let pages := engine.discover tree
    let refused := options.denyWarnings && !(PageRecord.allWarnings pages).isEmpty
    ⟨if refused then warned else success, Report.ofPages engine.root pages, some pages.length, none⟩
  | .site options => onEngine tree options fun engine =>
    let index := engine.site (engine.discover tree)
    ⟨success, [.ofText (index.toJson.toIndentedText ++ "\n")], none, none⟩
  | .help => ⟨success, [], none, none⟩

/-- What a command line leaves behind on a tree of files. -/
def outcome (tree : FileTree) (words : List String) : Outcome :=
  match ofWords? words with
  | some command => command.run tree
  | none => ⟨misused, [], none, none⟩

end Command

end PageIndex
