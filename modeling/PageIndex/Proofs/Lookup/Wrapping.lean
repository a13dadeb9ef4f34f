import PageIndex.Lookup

/-!
# Parentheses and types

Parentheses around an expression do not change its value, and neither do a type that it is cast to
or checked against and the assertion that it is present. They can be taken off at every depth of an
object or an array literal, with two exceptions. A name that stands alone in an array is dropped,
but a name in parentheses is not, and only a bare numeral can have a minus in front of it. The main
statement is `lookup_of_erase`.
-/

namespace PageIndex

open Script

namespace Script

/-- The expression inside the parentheses and types around it. -/
def Expr.unwrapped : Expr → Expr
  | .parenthesized e => e.unwrapped
  | .cast e => e.unwrapped
  | .satisfying e => e.unwrapped
  | .present e => e.unwrapped
  | e => e

/-- Whether an expression is a name. -/
def Expr.isName : Expr → Bool
  | .reference _ => true
  | _ => false

mutual

/-- The expression without parentheses and types around it and around its parts. -/
def Expr.erase : Expr → Expr
  | .object members => .object (eraseMembers members)
  | .array items => .array (eraseItems items)
  | .parenthesized e => e.erase
  | .cast e => e.erase
  | .satisfying e => e.erase
  | .present e => e.erase
  | e => e

/-- The members without parentheses and types around their values. -/
def eraseMembers : List Member → List Member
  | [] => []
  | .property key e :: rest => .property key e.erase :: eraseMembers rest
  | x :: rest => x :: eraseMembers rest

/-- The items without parentheses and types around them, except around names. -/
def eraseItems : List Item → List Item
  | [] => []
  | .item e :: rest =>
    (if e.unwrapped.isName then .item e else .item e.erase) :: eraseItems rest
  | x :: rest => x :: eraseItems rest

end

mutual

/-- Whether there are no parentheses and types around an expression and its parts. -/
inductive Expr.Bare : Expr → Prop where
  | reference (name : String) : Expr.Bare (.reference name)
  | str (text : String) : Expr.Bare (.str text)
  | template (text : String) : Expr.Bare (.template text)
  | num (x : Binary64) : Expr.Bare (.num x)
  | bool (b : Bool) : Expr.Bare (.bool b)
  | null : Expr.Bare .null
  | object {members : List Member} (each : ∀ x ∈ members, x.Bare) : Expr.Bare (.object members)
  | array {items : List Item} (each : ∀ x ∈ items, x.Bare) : Expr.Bare (.array items)
  /-- What has a minus in front of it is not looked into. -/
  | negative (e : Expr) : Expr.Bare (.negative e)
  | other (form : Form) : Expr.Bare (.other form)

/-- Whether there are no parentheses and types around the value of a member and its parts. -/
inductive Member.Bare : Member → Prop where
  | property (key : Key) {e : Expr} (inner : e.Bare) : Member.Bare (.property key e)
  | method (key : Key) : Member.Bare (.method key)
  | accessor (key : Key) : Member.Bare (.accessor key)
  | spread : Member.Bare .spread

/-- Whether there are no parentheses and types around an item and its parts, unless it is a name. -/
inductive Item.Bare : Item → Prop where
  | item {e : Expr} (inner : e.Bare) : Item.Bare (.item e)
  | name {e : Expr} (named : e.unwrapped.isName = true) : Item.Bare (.item e)
  | spread : Item.Bare .spread
  | hole : Item.Bare .hole

end

mutual

/-- There are no parentheses and types left around an expression and its parts. -/
theorem Expr.bare_erase (e : Expr) : e.erase.Bare := by
  cases e with
  | object members => exact .object (bare_eraseMembers members)
  | array items => exact .array (bare_eraseItems items)
  | parenthesized e | cast e | satisfying e | present e => exact e.bare_erase
  | reference name => exact .reference name
  | str text => exact .str text
  | template text => exact .template text
  | num x => exact .num x
  | bool b => exact .bool b
  | null => exact .null
  | negative e => exact .negative e
  | other form => exact .other form

/-- There are no parentheses and types left around the values of members. -/
theorem bare_eraseMembers (members : List Member) : ∀ x ∈ eraseMembers members, x.Bare := by
  cases members with
  | nil =>
    intro x hx
    cases hx
  | cons member rest =>
    have later := bare_eraseMembers rest
    cases member with
    | property key e => exact List.forall_mem_cons.2 ⟨.property key e.bare_erase, later⟩
    | method key => exact List.forall_mem_cons.2 ⟨.method key, later⟩
    | accessor key => exact List.forall_mem_cons.2 ⟨.accessor key, later⟩
    | spread => exact List.forall_mem_cons.2 ⟨.spread, later⟩

/-- There are no parentheses and types left around items, except around names. -/
theorem bare_eraseItems (items : List Item) : ∀ x ∈ eraseItems items, x.Bare := by
  cases items with
  | nil =>
    intro x hx
    cases hx
  | cons item rest =>
    have later := bare_eraseItems rest
    cases item with
    | item e =>
      rw [eraseItems, List.forall_mem_cons]
      refine ⟨?_, later⟩
      by_cases named : e.unwrapped.isName = true
      · rw [if_pos named]
        exact .name named
      · rw [if_neg named]
        exact .item e.bare_erase
    | spread => exact List.forall_mem_cons.2 ⟨.spread, later⟩
    | hole => exact List.forall_mem_cons.2 ⟨.hole, later⟩

end

/-- Whether an expression is a name inside its parentheses and types can be told without them. -/
theorem Expr.isName_erase (e : Expr) : e.erase.isName = e.unwrapped.isName := by
  fun_induction Expr.unwrapped e with
  | case1 e ih | case2 e ih | case3 e ih | case4 e ih => exact ih
  | case5 e => cases e <;> simp_all [Expr.erase, Expr.isName]

/-- A name has no parentheses and types around it. -/
theorem Expr.isName_of_unwrapped {e : Expr} (h : e.unwrapped.isName = false) :
    e.isName = false := by
  cases e with
  | reference name => exact h
  | _ => rfl

end Script

namespace Codebase

variable (code : Codebase) (trail : Trail) (file : Path) (m : Module)

/-- What a member of an object literal adds to the object, if it adds something. -/
def memberValue? : Member → Option (String × Json)
  | .property (.name key) e => (code.valueOf trail file m e).map (key, ·)
  | _ => none

/-- What an item of an array literal adds to the array, if it adds something. -/
def itemValue? : Item → Option Json
  | .item e => if e.isName then none else code.valueOf trail file m e
  | .spread => none
  | .hole => some .null

/-- The members of an object literal add to the object one after the other. -/
theorem membersOf_cons (x : Member) (rest : List Member) :
    code.membersOf trail file m (x :: rest) =
      (code.memberValue? trail file m x).toList ++ code.membersOf trail file m rest := by
  rcases x with ⟨key | key | _ | _, e⟩ | _ | _ | _
  case property.name =>
    rw [membersOf, memberValue?]
    cases code.valueOf trail file m e <;> rfl
  all_goals
    rw [membersOf]
    · rfl
    · rintro _ _ ⟨⟩

/-- The items of an array literal add to the array one after the other. -/
theorem itemsOf_cons (x : Item) (rest : List Item) :
    code.itemsOf trail file m (x :: rest) =
      (code.itemValue? trail file m x).toList ++ code.itemsOf trail file m rest := by
  cases x with
  | item e =>
    by_cases named : e.isName = true
    · cases e <;> cases named
      rw [itemsOf]
      rfl
    · rw [itemsOf, itemValue?, if_neg named]
      · cases code.valueOf trail file m e <;> rfl
      · rintro name rfl
        exact named rfl
  | spread | hole =>
    rw [itemsOf]
    rfl

/-- Parentheses and types around an expression do not change its value. -/
theorem valueOf_unwrapped (e : Expr) :
    code.valueOf trail file m e.unwrapped = code.valueOf trail file m e := by
  fun_induction Expr.unwrapped e with
  | case1 e ih | case2 e ih | case3 e ih | case4 e ih => rw [ih, valueOf]
  | case5 => rfl

mutual

/-- An expression has its value without parentheses and types, too. -/
theorem valueOf_erase (e : Expr) :
    code.valueOf trail file m e.erase = code.valueOf trail file m e := by
  cases e with
  | object members => rw [Expr.erase, valueOf, valueOf, membersOf_erase members]
  | array items => rw [Expr.erase, valueOf, valueOf, itemsOf_erase items]
  | parenthesized e | cast e | satisfying e | present e =>
    rw [Expr.erase, valueOf]
    exact valueOf_erase e
  | _ => rfl

/-- Members have their values without parentheses and types, too. -/
theorem membersOf_erase (members : List Member) :
    code.membersOf trail file m (eraseMembers members) = code.membersOf trail file m members := by
  cases members with
  | nil => rfl
  | cons x rest =>
    have later := membersOf_erase rest
    cases x with
    | property key e =>
      have same : code.memberValue? trail file m (.property key e.erase) =
          code.memberValue? trail file m (.property key e) := by
        cases key with
        | name key => rw [memberValue?, memberValue?, valueOf_erase e]
        | _ => rfl
      rw [eraseMembers, membersOf_cons, membersOf_cons, same, later]
    | method | accessor | spread =>
      rw [eraseMembers, membersOf_cons, membersOf_cons, later]
      rintro _ _ ⟨⟩

/-- Items have their values without parentheses and types, too. -/
theorem itemsOf_erase (items : List Item) :
    code.itemsOf trail file m (eraseItems items) = code.itemsOf trail file m items := by
  cases items with
  | nil => rfl
  | cons x rest =>
    have later := itemsOf_erase rest
    cases x with
    | item e =>
      by_cases named : e.unwrapped.isName = true
      · rw [eraseItems, if_pos named, itemsOf_cons, itemsOf_cons, later]
      · have same : code.itemValue? trail file m (.item e.erase) =
            code.itemValue? trail file m (.item e) := by
          have unnamed := Bool.eq_false_iff.2 named
          rw [itemValue?, itemValue?, e.isName_erase, unnamed, Expr.isName_of_unwrapped unnamed,
            valueOf_erase e]
        rw [eraseItems, if_neg named, itemsOf_cons, itemsOf_cons, same, later]
    | spread | hole =>
      rw [eraseItems, itemsOf_cons, itemsOf_cons, later]
      rintro _ ⟨⟩

end

/-- A name in an array has its value only if there are parentheses or types around it. -/
theorem valueOf_array_name {e : Expr} {name : String} (h : e.unwrapped = .reference name) :
    code.valueOf trail file m (.array [.item e]) =
      some (.arr (if e.isName then [] else (code.bindingValue? trail file m name).toList)) := by
  have value : code.valueOf trail file m e = code.bindingValue? trail file m name := by
    rw [← valueOf_unwrapped, h, valueOf]
  rw [valueOf, itemsOf_cons, itemValue?, value, itemsOf, List.append_nil]
  cases e.isName <;> rfl

/-- A numeral with a minus in front of it has no value if there are parentheses or types around
it. -/
theorem valueOf_negative_wrapped {e : Expr} {x : Binary64} (h : e.unwrapped = .num x)
    (wrapped : e ≠ e.unwrapped) : code.valueOf trail file m (.negative e) = none := by
  rw [valueOf]
  rintro x rfl
  exact wrapped rfl

end Codebase

/-- Without the parentheses and types around it and its parts an expression has the same value, in
every module and file, in every project and under every trail. They do not matter but in two places,
and there they do. A name that stands alone in an array is dropped, and one with parentheses or
types around it is looked up. A bare numeral with a minus in front of it is a number, and one with
parentheses or types around it has no value. -/
theorem Codebase.lookup_of_erase (e : Expr) :
    e.erase.Bare ∧
    (∀ (code : Codebase) (trail : Trail) (file : Path) (m : Module),
      code.valueOf trail file m e.erase = code.valueOf trail file m e) ∧
    (∀ name, e.unwrapped = .reference name →
      ∀ (code : Codebase) (trail : Trail) (file : Path) (m : Module),
        code.valueOf trail file m (.array [.item e.unwrapped]) = some (.arr []) ∧
        (e ≠ e.unwrapped → code.valueOf trail file m (.array [.item e]) =
          some (.arr (code.bindingValue? trail file m name).toList))) ∧
    (∀ x, e.unwrapped = .num x →
      ∀ (code : Codebase) (trail : Trail) (file : Path) (m : Module),
        code.valueOf trail file m (.negative e.unwrapped) = numberValue? x.neg ∧
        (e ≠ e.unwrapped → code.valueOf trail file m (.negative e) = none)) := by
  refine ⟨e.bare_erase, fun code trail file m => code.valueOf_erase trail file m e, ?_, ?_⟩
  · intro name h code trail file m
    constructor
    · rw [h]
      exact code.valueOf_array_name trail file m rfl
    · intro wrapped
      have unnamed : e.isName = false := by
        cases e with
        | reference name => exact absurd rfl wrapped
        | _ => rfl
      rw [valueOf_array_name code trail file m h, unnamed]
      rfl
  · intro x h code trail file m
    constructor
    · rw [h, valueOf]
    · exact code.valueOf_negative_wrapped trail file m h

/-- Parentheses stay around a name in an array, and behind a minus. -/
example :
    (Expr.parenthesized (.array [.item (.parenthesized (.reference "x")),
        .item (.cast (.negative (.parenthesized .null)))])).erase =
      .array [.item (.parenthesized (.reference "x")),
        .item (.negative (.parenthesized .null))] := by
  rfl

end PageIndex
