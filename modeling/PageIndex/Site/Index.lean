import PageIndex.Options
import PageIndex.Page.Record

/-!
# The site index

The links to all pages with a configuration, grouped into sections: first the section for the
pages that no rule covers, then one section for each rule, in the order of the rules. A page is
filed under the first rule that covers its route. Sections without links are left out.
-/

namespace PageIndex

/-- A link to a page (`LinkEntry`). -/
structure Link where
  title : String
  url : String
  description : Option String
deriving DecidableEq, Repr

/-- A titled list of links. -/
structure Section where
  title : String
  links : List Link
deriving DecidableEq, Repr

/-- The index of a site (`SiteConfig`). -/
structure SiteIndex where
  title : String
  description : String
  sections : List Section
deriving DecidableEq, Repr

namespace SiteIndex

/-- The title of the section for the pages that no rule covers (`MAIN_SECTION_TITLE`). -/
def mainTitle : String :=
  "Main Pages"

/-- A base address without the slashes at its end. -/
def trimBase (baseUrl : String) : String :=
  String.ofList (baseUrl.toList.reverse.dropWhile (· == '/')).reverse

/-- Whether a page has a link in the index. -/
def keeps (o : Options) (page : PageRecord) : Bool :=
  page.config.isSome && !(o.skipMetadataFallback && page.usesFallback)

/-- The link to a page. -/
def link (o : Options) (page : PageRecord) : Link where
  title := (page.configText? "title").getD (Route.label page.route)
  url := trimBase o.baseUrl ++ page.route
  description := page.configText? "description"

/-- The number of the section of a route: 0 when no rule covers it, and otherwise one more than
the position of the first rule that does. -/
def slot (rules : List SectionRule) (route : String) : Nat :=
  match rules.findIdx? (·.covers route) with
  | none => 0
  | some i => i + 1

/-- The titles of the sections, in the order of their numbers. -/
def titles (rules : List SectionRule) : List String :=
  mainTitle :: rules.map (·.title)

/-- The section with the given number and title. -/
def sectionAt (o : Options) (pages : List PageRecord) (number : Nat) (title : String) :
    Section where
  title := title
  links := (pages.filter fun p => keeps o p && slot o.sections p.route == number).map (link o)

/-- The index of the given pages (`build_site_config`). -/
def ofPages (o : Options) (pages : List PageRecord) : SiteIndex where
  title := o.title
  description := o.description
  sections :=
    ((titles o.sections).zipIdx.map fun t => sectionAt o pages t.2 t.1).filter (!·.links.isEmpty)

end SiteIndex

/-- A link as a JSON value; an absent description has no member. -/
def Link.toJson (l : Link) : Json :=
  .obj ([("title", .str l.title), ("url", .str l.url)] ++
    l.description.toList.map fun d => ("description", .str d))

/-- A section as a JSON value. -/
def Section.toJson (s : Section) : Json :=
  .obj [("title", .str s.title), ("items", .arr (s.links.map Link.toJson))]

/-- An index as a JSON value. -/
def SiteIndex.toJson (i : SiteIndex) : Json :=
  .obj [("title", .str i.title), ("description", .str i.description),
    ("sections", .arr (i.sections.map Section.toJson))]

end PageIndex
