import PageIndex.Codebase
import PageIndex.Json.Basic
import PageIndex.Script.Interface

/-!
# Looking values up

The value of a name or an export, as far as it is written down. Names lead to expressions, to
other names and into other files, so a lookup keeps a trail of what it is looking for. What is
on the trail is not looked for again, and only so many files are entered one from another.

A lookup ends because each step leaves fewer files to enter, or fewer declared names that are
not on the trail, or else goes down in the order of the steps: from exports (4) to what they
come from (3), to expressions (2) and their parts, to names (1), and to imports (0).
-/

namespace PageIndex

open Script

/-- What a lookup is looking for in a file. -/
inductive Reference where
  /-- A name of the module. -/
  | binding (name : String)
  /-- An export of the module. -/
  | exported (name : String)
deriving DecidableEq, Repr

/-- Whether an export is looked for, which means that a file was entered. -/
def Reference.isExported : Reference → Bool
  | .binding _ => false
  | .exported _ => true

/-- Something that is looked for in a file. -/
structure Visit where
  file : Path
  sought : Reference
deriving DecidableEq, Repr

/-- Whether two visits are the same. Spellings of one path are one file. -/
def Visit.same (a b : Visit) : Bool :=
  a.file.components == b.file.components && a.sought == b.sought

/-- What is looked for right now, the latest first (`ValueExtractor::trail`). -/
abbrev Trail : Type :=
  List Visit

namespace Trail

/-- The number of files that may be entered one from another (`MAX_REFERENCE_DEPTH`). -/
def hopLimit : Nat :=
  32

/-- The number of files that were entered (`import_hops`). -/
def hops (t : Trail) : Nat :=
  t.countP (·.sought.isExported)

/-- Whether something is looked for already. -/
def holds (t : Trail) (v : Visit) : Bool :=
  t.any v.same

/-- Whether the lookup may go on with a visit (`enter`). -/
def admits (t : Trail) (v : Visit) : Bool :=
  !(v.sought.isExported && hopLimit ≤ t.hops) && !t.holds v

/-- The number of files that may still be entered. -/
def hopsLeft (t : Trail) : Nat :=
  hopLimit - t.hops

/-- The number of the given names of a file that are not looked for. -/
def freshNames (t : Trail) (file : Path) (names : List String) : Nat :=
  names.countP fun n => !t.holds ⟨file, .binding n⟩

/-- Entering a file leaves fewer files to enter. -/
theorem hopsLeft_cons_exported {t : Trail} {file : Path} {name : String}
    (h : t.admits ⟨file, .exported name⟩ = true) :
    hopsLeft (⟨file, .exported name⟩ :: t) < hopsLeft t := by
  simp [admits, Reference.isExported] at h
  simp [hopsLeft, hops, Reference.isExported] at h ⊢
  omega

/-- Looking for a name enters no file. -/
theorem hopsLeft_cons_binding (t : Trail) (file : Path) (name : String) :
    hopsLeft (⟨file, .binding name⟩ :: t) = hopsLeft t := by
  simp [hopsLeft, hops, Reference.isExported]

theorem countP_lt_countP {α : Type} {p q : α → Bool} {a : α} {l : List α}
    (hpq : ∀ x, p x = true → q x = true) (ha : a ∈ l) (hp : p a = false) (hq : q a = true) :
    l.countP p < l.countP q := by
  induction l with
  | nil => simp at ha
  | cons b l ih =>
    have hle : l.countP p ≤ l.countP q := List.countP_mono_left fun x _ => hpq x
    rcases List.mem_cons.1 ha with rfl | hm
    · rw [List.countP_cons_of_neg (by simp [hp]), List.countP_cons_of_pos hq]
      exact Nat.lt_succ_of_le hle
    · by_cases hb : p b = true
      · rw [List.countP_cons_of_pos hb, List.countP_cons_of_pos (hpq b hb)]
        exact Nat.succ_lt_succ (ih hm)
      · rw [List.countP_cons_of_neg hb, List.countP_cons]
        exact Nat.lt_add_right _ (ih hm)

/-- Looking for a declared name leaves fewer names that are not looked for. -/
theorem freshNames_cons {t : Trail} {file : Path} {name : String} {names : List String}
    (hn : name ∈ names) (h : t.admits ⟨file, .binding name⟩ = true) :
    freshNames (⟨file, .binding name⟩ :: t) file names < freshNames t file names := by
  refine countP_lt_countP (a := name) ?_ hn ?_ ?_
  · intro x
    simp [holds]
  · simp [holds, Visit.same]
  · simpa [admits, Reference.isExported] using h

end Trail

/-- The value of a numeral (`number_value`). An integer that a double holds exactly stays an
integer, and an infinity has no value. -/
def numberValue? (x : Binary64) : Option Json :=
  match x.toInt? with
  | some n => if n.natAbs < Nat.pow 2 53 then some (.int n) else some (.double x)
  | none => if x.isFinite then some (.double x) else none

namespace Codebase

/-- A step to an import is lower than any other step, whatever names are left. -/
theorem import_lower (fresh : Nat) {rank size : Nat} (h : 0 < rank) :
    Prod.Lex (· < ·) (Prod.Lex (· < ·) (· < ·)) (0, 0, 0) (fresh, rank, size) := by
  rcases Nat.eq_zero_or_pos fresh with rfl | hf
  · exact Prod.Lex.right _ (Prod.Lex.left _ _ h)
  · exact Prod.Lex.left _ _ hf

mutual

/-- The value of an expression of the module `m` in `file` (`extract`). -/
def valueOf (code : Codebase) (trail : Trail) (file : Path) (m : Module) (e : Expr) :
    Option Json :=
  match e with
  | .object members => some (.obj (Members.ofList (membersOf code trail file m members)))
  | .array items => some (.arr (itemsOf code trail file m items))
  | .str text => some (.str text)
  | .template text => some (.str text)
  | .num x => numberValue? x
  | .bool b => some (.bool b)
  | .null => some .null
  | .reference name => bindingValue? code trail file m name
  | .negative (.num x) => numberValue? x.neg
  | .negative _ => none
  | .parenthesized e => valueOf code trail file m e
  | .cast e => valueOf code trail file m e
  | .satisfying e => valueOf code trail file m e
  | .present e => valueOf code trail file m e
  | .other _ => none
termination_by
  (trail.hopsLeft, trail.freshNames file m.declaredNames, 2, sizeOf e)

/-- The values of the members of an object literal that have a plain name and a value
(`extract_object`). -/
def membersOf (code : Codebase) (trail : Trail) (file : Path) (m : Module)
    (members : List Member) : List (String × Json) :=
  match members with
  | [] => []
  | .property (.name key) e :: rest =>
    match valueOf code trail file m e with
    | some v => (key, v) :: membersOf code trail file m rest
    | none => membersOf code trail file m rest
  | _ :: rest => membersOf code trail file m rest
termination_by
  (trail.hopsLeft, trail.freshNames file m.declaredNames, 2, sizeOf members)

/-- The values of the items of an array literal (`extract_array`). A hole is null; a name that
stands alone is dropped. -/
def itemsOf (code : Codebase) (trail : Trail) (file : Path) (m : Module) (items : List Item) :
    List Json :=
  match items with
  | [] => []
  | .hole :: rest => .null :: itemsOf code trail file m rest
  | .spread :: rest => itemsOf code trail file m rest
  | .item (.reference _) :: rest => itemsOf code trail file m rest
  | .item e :: rest =>
    match valueOf code trail file m e with
    | some v => v :: itemsOf code trail file m rest
    | none => itemsOf code trail file m rest
termination_by
  (trail.hopsLeft, trail.freshNames file m.declaredNames, 2, sizeOf items)

/-- The value of a name of the module `m` in `file`: that of its first initial value, or else of its
first import (`resolve_binding`). -/
def bindingValue? (code : Codebase) (trail : Trail) (file : Path) (m : Module) (name : String) :
    Option Json :=
  if _admitted : trail.admits ⟨file, .binding name⟩ = true then
    let trail' : Trail := ⟨file, .binding name⟩ :: trail
    match _declared : m.initial? name with
    | some e => valueOf code trail' file m e
    | none =>
      match m.importOrigin? name with
      | some (.imported request exported) => importedValue? code trail' file request exported
      | _ => none
  else none
termination_by
  (trail.hopsLeft, trail.freshNames file m.declaredNames, 1, 0)
decreasing_by
  · simp only [Trail.hopsLeft_cons_binding]
    exact Prod.Lex.right _ (Prod.Lex.left _ _
      (Trail.freshNames_cons (Module.mem_declaredNames_of_initial? _declared) _admitted))
  · simp only [Trail.hopsLeft_cons_binding]
    exact Prod.Lex.right _ (import_lower _ (by decide))

/-- The value of an export of the module that `file` asks for with `request` (`follow_import`). -/
def importedValue? (code : Codebase) (trail : Trail) (file : Path) (request exported : String) :
    Option Json :=
  match code.target? file request with
  | none => none
  | some target =>
    if _admitted : trail.admits ⟨target, .exported exported⟩ = true then
      match code.module? target with
      | some m => exportValue? code (⟨target, .exported exported⟩ :: trail) target m exported
      | none => none
    else none
termination_by (trail.hopsLeft, 0, 0, 0)
decreasing_by
  exact Prod.Lex.left _ _ (Trail.hopsLeft_cons_exported _admitted)

/-- The value of something whose origin in the module `m` in `file` is known. -/
def originValue? (code : Codebase) (trail : Trail) (file : Path) (m : Module) (origin : Origin) :
    Option Json :=
  match origin with
  | .expression e => valueOf code trail file m e
  | .binding name => bindingValue? code trail file m name
  | .imported request exported => importedValue? code trail file request exported
  | .missing => none
termination_by
  (trail.hopsLeft, trail.freshNames file m.declaredNames, 3, 0)
decreasing_by
  · exact Prod.Lex.right _ (Prod.Lex.right _ (Prod.Lex.left _ _ (by decide)))
  · exact Prod.Lex.right _ (Prod.Lex.right _ (Prod.Lex.left _ _ (by decide)))
  · exact Prod.Lex.right _ (import_lower _ (by decide))

/-- The value of an export of the module `m` in `file` (`find_export`). The exports that the module
gives away by itself go before those of the modules it exports again. -/
def exportValue? (code : Codebase) (trail : Trail) (file : Path) (m : Module) (name : String) :
    Option Json :=
  match m.exportOrigin? name with
  | some origin => originValue? code trail file m origin
  | none => (m.starSources name).findSome? fun request =>
      importedValue? code trail file request name
termination_by
  (trail.hopsLeft, trail.freshNames file m.declaredNames, 4, 0)
decreasing_by
  · exact Prod.Lex.right _ (Prod.Lex.right _ (Prod.Lex.left _ _ (by decide)))
  · exact Prod.Lex.right _ (import_lower _ (by decide))

end

end Codebase

end PageIndex
