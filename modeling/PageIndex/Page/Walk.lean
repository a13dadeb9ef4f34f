import PageIndex.FileTree.Basic
import PageIndex.Route
import PageIndex.Text.Order

/-!
# The page walk

The page files below a page root, with their routes. There are two conventions: in an app tree
a page is a file named `page` in the directory whose path is the route; in a pages tree every
source file is a page, and its name is the last segment of the route. Directories whose name
starts with a parenthesis or a low line hide what is in them. Entries are visited in the order
of their names, a directory's own entries in its place, and links are not followed.
-/

namespace PageIndex

/-- How the files of a page tree are mapped to routes (`PageConvention`). -/
inductive Convention where
  /-- `app/**/page.tsx`: the directory is the route. -/
  | app
  /-- `pages/**/*.tsx`: the directory and the stem of the file name are the route. -/
  | pages
deriving DecidableEq, Repr

/-- A page file and its route (`PageEntry`). -/
structure PageFile where
  route : String
  path : Path
deriving DecidableEq, Repr

namespace Convention

/-- The extensions of page files (`PAGE_EXTENSIONS`). -/
def pageExtensions : List String :=
  ["tsx", "ts", "jsx", "js"]

/-- The stem of every page file of an app tree (`APP_PAGE_STEM`). -/
def appStem : String :=
  "page"

/-- The directory at the top of a pages tree that holds no pages (`PAGES_API_DIR`). -/
def apiDirectory : String :=
  "api"

/-- Whether a name starts with the given character. -/
def startsWith (c : Char) (name : String) : Bool :=
  name.toList.head? == some c

/-- Whether a directory hides what is in it; `dirs` are the names of the directories it is in, below
the page root (`is_hidden_dir`). -/
def hides (convention : Convention) (dirs : List String) (name : String) : Bool :=
  startsWith '(' name || startsWith '_' name ||
    (convention == .pages && dirs.isEmpty && name == apiDirectory)

/-- The segments of the route of a file in the directories `dirs`, if it is a page. -/
def routeSegments? (convention : Convention) (dirs : List String) (name : String) :
    Option (List String) :=
  match Path.extensionOf? name with
  | none => none
  | some ext =>
    if pageExtensions.contains ext then
      let stem := Path.stemOf name
      match convention with
      | .app => if stem = appStem then some dirs else none
      | .pages => if startsWith '_' stem then none else some (dirs ++ [stem])
    else none

/-- The route of a file in the directories `dirs`, if it is a page (`route_for`). -/
def route? (convention : Convention) (dirs : List String) (name : String) : Option String :=
  (routeSegments? convention dirs name).map fun segments =>
    Route.normalize (String.ofList ('/' :: Text.joinWith ['/'] (segments.map String.toList)))

end Convention

namespace Node

/-- The pages of named entries, in the order of the names. -/
def inNameOrder (found : List (String × List PageFile)) : List PageFile :=
  (found.mergeSort fun a b => Text.before a.1.toList b.1.toList).flatMap (·.2)

mutual

/-- The pages at and below the entry `name`, which stands at `path` in the directories `dirs`
of a page tree. -/
def pagesAt (convention : Convention) (dirs : List String) (name : String) (path : Path) :
    Node → List PageFile
  | .file _ => (convention.route? dirs name).toList.map fun route => ⟨route, path⟩
  | .link _ => []
  | .dir entries =>
    if convention.hides dirs name then []
    else inNameOrder (pagesOf convention (dirs ++ [name]) path entries)

/-- The pages of each entry of a directory, with the name of the entry. -/
def pagesOf (convention : Convention) (dirs : List String) (path : Path) :
    List (String × Node) → List (String × List PageFile)
  | [] => []
  | (name, node) :: rest =>
    (name, pagesAt convention dirs name (path.child name) node) ::
      pagesOf convention dirs path rest

end

end Node

/-- The pages below the directory `root`, which may be reached through links (`collect_pages`). -/
def FileTree.collectPages (tree : FileTree) (root : Path) (convention : Convention) :
    List PageFile :=
  match tree.locate root with
  | .ok (_, .dir entries) => Node.inNameOrder (Node.pagesOf convention [] root entries)
  | _ => []

end PageIndex
