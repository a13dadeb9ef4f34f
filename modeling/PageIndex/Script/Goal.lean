import PageIndex.Script.Cursor
import PageIndex.Script.Operand

/-!
# The parts of the grammar

The grammar of modules is recursive: statements hold expressions, expressions hold functions,
and functions hold statements. The parts that hold one another are named here, and the rules of
each part take the readers of all parts as an argument. Tying them together is the last step.
-/

namespace PageIndex.Script

/-- Where a statement stands. -/
inductive Position where
  /-- In a list of statements. -/
  | list
  /-- As the one statement of a loop or a condition, where declarations have no place. -/
  | single
  /-- After a label. -/
  | labelled
deriving DecidableEq, Repr

/-- A part of the grammar, with the type of what its reader returns. -/
inductive Goal : Type → Type where
  /-- A type. Types leave no trace. -/
  | type : Goal Unit
  /-- A pattern of bindings, and its name if it is one. -/
  | binding : Goal (Option String)
  /-- An expression without commas. In the middle of a conditional expression an arrow function
  may not have a return type unless a colon follows it. -/
  | assignment (returnType : Bool) : Goal Operand
  /-- An expression. -/
  | expression : Goal Operand
  /-- Operands joined by operators that bind more tightly than `level`. -/
  | binary (level : Nat) : Goal Operand
  /-- An operand with the operators in front of it. -/
  | unary : Goal Operand
  /-- An operand with the accesses and calls after it. -/
  | access : Goal Operand
  /-- An operand without operators. -/
  | primary : Goal Operand
  /-- A markup element, from its opening angle on. Its closing angle is left. -/
  | element : Goal Unit
  /-- A statement. -/
  | statement (position : Position) : Goal Statement

/-- Readers of all parts of the grammar. -/
abbrev Rules : Type 1 :=
  ⦃α : Type⦄ → Goal α → Reader α

end PageIndex.Script
