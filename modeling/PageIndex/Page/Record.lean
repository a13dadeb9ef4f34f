import PageIndex.Json.Basic
import PageIndex.Path.Basic
import PageIndex.Route

/-!
# Page records

What is known about a page after its file was read: its configuration, where that came from,
and the warnings about it.
-/

namespace PageIndex

/-- The record of one page. -/
structure PageRecord where
  route : String
  path : Path
  /-- Whether the page has the export that holds its configuration. -/
  hasPrimary : Bool
  /-- Whether the page has the metadata export, from which a configuration can be made up. -/
  hasFallback : Bool
  /-- Whether the configuration was made up from the metadata. -/
  usesFallback : Bool
  config : Option Json
  warnings : List String

namespace PageRecord

/-- The record of a page about which nothing is known yet (`PageRecord::new`). -/
def blank (route : String) (path : Path) : PageRecord :=
  ⟨route, path, false, false, false, none, []⟩

/-- A text of the configuration (`config_str`). -/
def configText? (r : PageRecord) (key : String) : Option String :=
  r.config.bind fun config => (config.get? key).bind Json.str?

/-- The first record whose route is the canonical form of the given one (`find_page`). -/
def find? (records : List PageRecord) (route : String) : Option PageRecord :=
  let canonical := Route.normalize route
  records.find? (·.route == canonical)

/-- All warnings, in the order of the records (`collect_warnings`). -/
def allWarnings (records : List PageRecord) : List String :=
  records.flatMap (·.warnings)

end PageRecord

end PageIndex
