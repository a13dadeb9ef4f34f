import PageIndex.Lookup
import PageIndex.Page.Record
import PageIndex.Page.Walk

/-!
# Reading pages

The record of a page is made from its file: the primary export is its configuration; without
one, a configuration is made up from the metadata export. Whatever goes wrong becomes a warning
of the record.
-/

namespace PageIndex

namespace Page

/-- The export that holds the configuration of a page (`PRIMARY_EXPORT`). -/
def primaryExport : String :=
  "llmstxt"

/-- The export from which a configuration can be made up (`FALLBACK_EXPORT`). -/
def fallbackExport : String :=
  "metadata"

/-- What can be wrong with a page. -/
inductive Warning where
  | madeUp
  | noExports
  | unresolved
  | broken (e : SourceError)
deriving DecidableEq, Repr

/-- The message of a warning about the page in the file `p`. -/
def Warning.message (p : Path) : Warning → String
  | .madeUp =>
    "Using metadata fallback for llms.txt generation - consider adding explicit llmstxt export"
  | .noExports => "No llms.txt export or metadata found - cannot generate llms.txt entry"
  | .unresolved => "llmstxt export could not be statically resolved"
  | .broken e => "Failed to analyze page: " ++ e.message p

/-- A warning about a page as it is shown (`push_warning`). -/
def Warning.text (w : Warning) (page : PageFile) : String :=
  "[next-llms-txt] " ++ w.message page.path ++ " (" ++ page.route ++ ")"

/-- A text that is there and not empty. -/
def nonEmpty? (j : Option Json) : Option String :=
  (j.bind Json.str?).filter (· ≠ "")

/-- The title in metadata: a text, or the default of a group of titles. -/
def metadataTitle? (metadata : Json) : Option String :=
  match metadata.get? "title" with
  | some (.str s) => nonEmpty? (some (.str s))
  | some (.obj members) => nonEmpty? ((Json.obj members).get? "default")
  | _ => none

/-- The configuration made up from metadata (`synthesize_from_fallback`). What the metadata lacks is
taken from the route. -/
def madeUpConfig (metadata : Json) (route : String) : Json :=
  .obj [("title", .str ((metadataTitle? metadata).getD (Route.label route))),
    ("description", .str ((nonEmpty? (metadata.get? "description")).getD ("Page: " ++ route)))]

/-- The record of a page whose configuration was found. -/
def foundRecord (page : PageFile) (m : Script.Module) (config : Json) : PageRecord :=
  { PageRecord.blank page.route page.path with
    hasPrimary := true
    hasFallback := m.declaresExport fallbackExport
    config := some config }

/-- The record of a page whose configuration is made up from metadata. -/
def madeUpRecord (page : PageFile) (m : Script.Module) (metadata : Json) : PageRecord :=
  let unresolved := if m.declaresExport primaryExport then [Warning.unresolved] else []
  { PageRecord.blank page.route page.path with
    hasPrimary := m.declaresExport primaryExport
    hasFallback := true
    usesFallback := true
    config := some (madeUpConfig metadata page.route)
    warnings := (unresolved ++ [Warning.madeUp]).map (·.text page) }

/-- The record of a page without a configuration. -/
def emptyRecord (page : PageFile) (m : Script.Module) : PageRecord :=
  let warning := if m.declaresExport primaryExport then Warning.unresolved else .noExports
  { PageRecord.blank page.route page.path with
    hasPrimary := m.declaresExport primaryExport
    hasFallback := m.declaresExport fallbackExport
    warnings := [warning.text page] }

/-- What a page says about itself: its configuration, or the warning that there is none
(`analyze_program`). The metadata is looked up only when there is no configuration. -/
def recordOf (code : Codebase) (page : PageFile) (m : Script.Module) : PageRecord :=
  match code.exportValue? [] page.path m primaryExport with
  | some config => foundRecord page m config
  | none =>
    match code.exportValue? [] page.path m fallbackExport with
    | some metadata => madeUpRecord page m metadata
    | none => emptyRecord page m

/-- The record of a page file (`PageAnalyzer::analyze`). -/
def analyze (aliases : AliasTable) (tree : FileTree) (page : PageFile) : PageRecord :=
  match tree.readModule page.path with
  | .ok m => recordOf (.ofTree aliases tree) page m
  | .error e =>
    { PageRecord.blank page.route page.path with warnings := [(Warning.broken e).text page] }

end Page

end PageIndex
