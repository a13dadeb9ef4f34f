import PageIndex.Route
import PageIndex.Text.Blank

/-!
# Section rules

A rule files the routes under a given one into a section of its own. It is written
`Title=/route`.
-/

namespace PageIndex

/-- The routes at and below `route` belong to the section `title`. -/
structure SectionRule where
  title : String
  route : String
deriving DecidableEq, Repr

namespace SectionRule

/-- Whether a route belongs to the section: it is the rule's route, or goes on after it with a slash
(`rule_covers`). -/
def covers (rule : SectionRule) (route : String) : Bool :=
  if rule.route = "/" then true
  else
    match Text.dropStart? rule.route.toList route.toList with
    | none => false
    | some [] => true
    | some (c :: _) => c == '/'

/-- The text before the first occurrence of a character and the text after it. -/
def cutAt? (sep : Char) : List Char → Option (List Char × List Char)
  | [] => none
  | c :: cs => if c = sep then some ([], cs) else (cutAt? sep cs).map fun r => (c :: r.1, r.2)

/-- Reads a rule (`parse_section_rule`). The title must not be blank and the route must start with a
slash. -/
def ofText? (text : String) : Option SectionRule :=
  match cutAt? '=' text.toList with
  | none => none
  | some (title, route) =>
    let title := Text.trim title
    let route := Text.trim route
    if title.isEmpty || route.head? != some '/' then none
    else some ⟨String.ofList title, Route.normalize (String.ofList route)⟩

/-- The text of a rule. -/
def toText (rule : SectionRule) : String :=
  rule.title ++ "=" ++ rule.route

end SectionRule

end PageIndex
