import PageIndex.Script.Tree

/-!
# Operands

An expression together with what it may become if an assignment operator follows it. Names and
members are places to assign to; object and array literals are patterns of places if all their
parts are.
-/

namespace PageIndex.Script

/-- What an expression may be assigned through. -/
inductive Place where
  /-- The expression is a value only. -/
  | value
  /-- A name or a member, maybe in parentheses. -/
  | simple
  /-- A literal that is a pattern as well; in it `pending` names have initial values, which only
  patterns may have. -/
  | pattern (pending : Nat)
  /-- An assignment, which inside a pattern is a place with an initial value. -/
  | filled
deriving DecidableEq, Repr

/-- An expression and what it may become. -/
structure Operand where
  expr : Expr
  place : Place
  /-- Whether it is a name or a member under parentheses and notes on its type. -/
  wrapsPlace : Bool

namespace Operand

/-- An expression that is a value only. -/
def value (e : Expr) : Operand :=
  ⟨e, .value, false⟩

/-- Another expression that is a value only. -/
def other (form : Form) : Operand :=
  value (.other form)

/-- A name. -/
def name (n : String) : Operand :=
  ⟨.reference n, .simple, true⟩

/-- A member of an object. -/
def member : Operand :=
  ⟨.other .member, .simple, true⟩

/-- A note on the type of an operand. -/
def noted (o : Operand) (e : Expr) : Operand :=
  ⟨e, if o.wrapsPlace then .simple else .value, o.wrapsPlace⟩

/-- An operand in parentheses, in which a literal is no pattern. -/
def inParentheses (o : Operand) : Operand :=
  ⟨.parenthesized o.expr, if o.place = .simple then .simple else .value, o.wrapsPlace⟩

/-- The number of pending initial values of an operand that may be assigned to. -/
def asTarget? (o : Operand) : Option Nat :=
  match o.place with
  | .simple => some 0
  | .pattern pending => some pending
  | .filled => none
  | .value => none

/-- The number of pending initial values of an operand that may stand in a pattern. -/
def asElement? (o : Operand) : Option Nat :=
  match o.place with
  | .filled => some 0
  | _ => o.asTarget?

/-- Whether the expression is of the given form. -/
def isForm (o : Operand) (form : Form) : Bool :=
  match o.expr with
  | .other f => f == form
  | _ => false

end Operand

/-- A part of a literal as a part of a pattern: the number of pending initial values in it, or
nothing if it cannot be one; and whether it takes all that is left. -/
structure PatternPart where
  pending : Option Nat
  takesRest : Bool

/-- The place of a literal with the given parts: what takes the rest must come last, without a
comma after it. -/
def Place.ofParts (parts : List PatternPart) (trailing : Bool) : Place :=
  let restInside := (parts.dropLast.any (·.takesRest)) ||
    (trailing && (parts.getLast?.any (·.takesRest)))
  if restInside then .value
  else
    match parts.mapM (·.pending) with
    | some counts => .pattern (counts.foldl (· + ·) 0)
    | none => .value

end PageIndex.Script
