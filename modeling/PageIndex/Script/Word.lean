import PageIndex.Script.Escape
import PageIndex.Text.Ident

/-!
# Words

Identifiers and keywords, whose characters may be written as numbered escapes.
-/

namespace PageIndex.Script

/-- Whether a character may stand in a word, at its start or later. -/
def inWord (first : Bool) (c : Char) : Bool :=
  if first then Text.isIdentStart c else Text.isIdentContinue c

/-- A word at the start of a text: its characters, whether one of them is an escape, and what
follows. `found` holds the characters before, the last one first. -/
def cutWord (found : List Char) (escaped : Bool) (cs : List Char) :
    Option (List Char × Bool × List Char) :=
  match cs with
  | '\\' :: rest =>
    match rest with
    | 'u' :: digits =>
      match h : cutNumbered digits with
      | some (n, after) =>
        have := cutNumbered_shorter h
        if n.isValidChar && inWord found.isEmpty (Char.ofNat n) then
          cutWord (Char.ofNat n :: found) true after
        else none
      | none => none
    | _ => none
  | c :: rest =>
    if inWord found.isEmpty c then cutWord (c :: found) escaped rest
    else if found.isEmpty then none
    else some (found.reverse, escaped, c :: rest)
  | [] => if found.isEmpty then none else some (found.reverse, escaped, [])
termination_by cs.length

end PageIndex.Script
