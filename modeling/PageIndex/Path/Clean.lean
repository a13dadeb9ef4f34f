import PageIndex.Path.Basic

/-!
# Lexical normal form

A path without superfluous parts: no empty or `.` piece, and no `..` after a name or at the
root of an absolute path. It is computed from the text alone, links are not looked at. The
empty relative path is written `.`.
-/

namespace PageIndex.Path

/-- Adds a component to a normal form whose last component stands first. -/
def cleanStep (out : List Component) : Component → List Component
  | .here => out
  | .root => .root :: out
  | .name s => .name s :: out
  | .up =>
    match out with
    | .root :: _ => out
    | .name _ :: rest => rest
    | _ => .up :: out

/-- The components of the normal form. -/
def cleanComponents (cs : List Component) : List Component :=
  (cs.foldl cleanStep []).reverse

/-- The lexical normal form of a path. -/
def clean (p : Path) : Path :=
  match cleanComponents p.components with
  | [] => ⟨"."⟩
  | cs => ofComponents cs

end PageIndex.Path
