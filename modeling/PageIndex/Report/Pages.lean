import PageIndex.Page.Record
import PageIndex.Report.Styled

/-!
# The page report

A report of the pages for people: for every page its route and file, where its configuration
came from, its title and description, and the warnings about it, and at the end the totals.
-/

namespace PageIndex.Report

open Style (ofColour boldColour)

/-- Where the configuration of a page came from. -/
inductive Source where
  | none
  | metadata
  | llmstxt
deriving DecidableEq, Repr

/-- The source of a page's configuration (`config_source`). -/
def Source.ofRecord (page : PageRecord) : Source :=
  if page.config.isNone then .none
  else if page.usesFallback then .metadata
  else .llmstxt

/-- The name of a source. -/
def Source.name : Source → String
  | .none => "none"
  | .metadata => "metadata"
  | .llmstxt => "llmstxt"

/-- The colour of a source. -/
def Source.colour : Source → Colour
  | .none => .red
  | .metadata => .yellow
  | .llmstxt => .green

/-- What is known of a page, in lines. -/
def facts (page : PageRecord) : List String :=
  ("source: " ++ (Source.ofRecord page).name) ::
    ((page.configText? "title").toList.map ("title: " ++ ·) ++
      (page.configText? "description").toList.map ("description: " ++ ·))

/-- The lines about a page: what is known of it, and then the warnings. -/
def details (page : PageRecord) : List String :=
  facts page ++ page.warnings

/-- The mark of a line with more lines below it. -/
def teeMark : String :=
  "├──"

/-- The mark of the last line of a page. -/
def closingMark : String :=
  "└──"

/-- The sign of a warning. -/
def warningSign : String :=
  "⚠"

/-- The mark of the line with the given number, of `count` lines. -/
def markAt (count number : Nat) : String :=
  if number = count - 1 then closingMark else teeMark

/-- The line with the given number, of `count` lines of which the last `warnings` are warnings. -/
def detailLine (count warnings : Nat) (text : String) (number : Nat) : List Span :=
  let shown : List Span :=
    if count - warnings ≤ number then
      [⟨ofColour .yellow, warningSign⟩, .ofText " ", ⟨ofColour .yellow, text⟩]
    else [.ofText text]
  [⟨⟨.dim, none⟩, markAt count number⟩, .ofText "  "] ++ shown ++ [.ofText "\n"]

/-- The lines about a page with their marks. -/
def detailLines (page : PageRecord) : List Span :=
  let lines := details page
  lines.zipIdx.flatMap fun line => detailLine lines.length page.warnings.length line.1 line.2

/-- The part of the report about one page. -/
def pageBlock (root : Path) (page : PageRecord) : List Span :=
  [⟨boldColour (Source.ofRecord page).colour, page.route⟩, .ofText " ",
    ⟨ofColour .blue, page.path.display root⟩, .ofText "\n"] ++
    detailLines page ++ [.ofText "\n"]

/-- The number of pages with a configuration of their own. -/
def primaryCount (pages : List PageRecord) : Nat :=
  pages.countP fun p => p.config.isSome && !p.usesFallback

/-- The number of pages whose configuration was made up from metadata. -/
def fallbackCount (pages : List PageRecord) : Nat :=
  pages.countP (·.usesFallback)

/-- The number of pages without a configuration. -/
def missingCount (pages : List PageRecord) : Nat :=
  pages.countP (·.config.isNone)

/-- The number of warnings. -/
def warningCount (pages : List PageRecord) : Nat :=
  pages.foldl (fun count page => count + page.warnings.length) 0

/-- A line of the totals. -/
def totalLine (label : String) (style : Style) (count : Nat) : List Span :=
  [.ofText ("  " ++ label ++ ": "), ⟨style, toString count⟩, .ofText "\n"]

/-- The totals (`print_summary`). -/
def summary (pages : List PageRecord) : List Span :=
  [⟨⟨.dim, none⟩, String.ofList (List.replicate 60 '─')⟩, .ofText "\n",
    ⟨⟨.bold, none⟩, "Summary"⟩, .ofText "\n"] ++
    totalLine "llmstxt exports" (boldColour .green) (primaryCount pages) ++
    totalLine "metadata fallbacks" (boldColour .yellow) (fallbackCount pages) ++
    totalLine "without config" (boldColour .red) (missingCount pages) ++
    totalLine "warnings" (ofColour .yellow) (warningCount pages)

/-- The report about pages, of which there is at least one (`print_pages_tree`). -/
def tree (root : Path) (pages : List PageRecord) : List Span :=
  [⟨ofColour .brightBlue, "●"⟩, .ofText " Discovered ", ⟨ofColour .cyan, toString pages.length⟩,
    .ofText " pages\n\n"] ++ pages.flatMap (pageBlock root) ++ summary pages

/-- The report when there are no pages (`print_no_pages_message`). -/
def noPages (root : Path) : List Span :=
  [⟨boldColour .green, "✓"⟩, .ofText (" No page files found under " ++ root.text ++ "\n")]

/-- The report about any number of pages. -/
def ofPages (root : Path) (pages : List PageRecord) : List Span :=
  if pages.isEmpty then noPages root else tree root pages

end PageIndex.Report
