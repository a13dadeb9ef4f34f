import PageIndex.Text.Capital
import PageIndex.Text.Split

/-!
# Routes

A route names a page by segments between slashes. The canonical form starts with a slash, has
no reverse solidus and, unless it is the root `/`, ends neither with a slash nor with a segment
`index`. A label for people is made from the segments.
-/

namespace PageIndex.Route

/-- The label of the root (`HOME_LABEL`). -/
def homeLabel : String :=
  "Home"

/-- A reverse solidus is another spelling of a slash. -/
def unifySlash (c : Char) : Char :=
  if c = '\\' then '/' else c

/-- The text with a slash in front, unless there is one. -/
def withSlash : List Char → List Char
  | '/' :: cs => '/' :: cs
  | cs => '/' :: cs

/-- Takes trailing slashes and `/index` segments off a route that is written backwards; the
slash at its start stays. -/
def trimBackwards : List Char → List Char
  | '/' :: c :: cs => trimBackwards (c :: cs)
  | 'x' :: 'e' :: 'd' :: 'n' :: 'i' :: '/' :: cs =>
    match cs with
    | [] => ['/']
    | c :: rest => trimBackwards (c :: rest)
  | cs => cs

/-- The canonical form of a route. -/
def normalizeChars (route : List Char) : List Char :=
  (trimBackwards (withSlash (route.map unifySlash)).reverse).reverse

/-- The canonical form of a route (`normalize_route`). -/
def normalize (route : String) : String :=
  String.ofList (normalizeChars route.toList)

/-- The segments of a route that are not empty. -/
def segments (route : List Char) : List (List Char) :=
  (Text.splitOn '/' route).filter (!·.isEmpty)

/-- The label of a route: its segments, each with an upper-case first character, and dashes between
them (`route_label`). -/
def label (route : String) : String :=
  if route = "/" then homeLabel
  else String.ofList (Text.joinWith [' ', '-', ' '] ((segments route.toList).map Text.capitalize))

end PageIndex.Route
