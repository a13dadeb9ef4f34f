import PageIndex.Proofs.Lookup.Wrapping

/-!
# Parts that are left out

Not every part of an object or an array literal is looked at. A member counts if it is a property
with a plain name and its expression is of a kind that can have a value. An item counts if it is a
hole or such an expression, but not if it is a name that stands alone. All the other parts can be
left out at every depth, and the value is the same. The main statement is `lookup_of_prune`.
-/

namespace PageIndex

open Script

namespace Script

/-- Whether an expression is, inside its parentheses and types, of a kind that can have a value. -/
def Expr.isSupported (e : Expr) : Bool :=
  match e.unwrapped with
  | .num x => x.isFinite
  | .negative (.num x) => x.isFinite
  | .negative _ => false
  | .other _ => false
  | _ => true

/-- Whether a member of an object literal counts. -/
def Member.isSupported : Member → Bool
  | .property (.name _) e => e.isSupported
  | _ => false

/-- Whether an item of an array literal counts. -/
def Item.isSupported : Item → Bool
  | .item e => !e.isName && e.isSupported
  | .spread => false
  | .hole => true

mutual

/-- The expression without the parts that do not count. -/
def Expr.prune : Expr → Expr
  | .object members => .object (pruneMembers members)
  | .array items => .array (pruneItems items)
  | .parenthesized e => .parenthesized e.prune
  | .cast e => .cast e.prune
  | .satisfying e => .satisfying e.prune
  | .present e => .present e.prune
  | e => e

/-- The members that count, without the parts that do not. -/
def pruneMembers : List Member → List Member
  | [] => []
  | .property (.name key) e :: rest =>
    if e.isSupported then .property (.name key) e.prune :: pruneMembers rest else pruneMembers rest
  | _ :: rest => pruneMembers rest

/-- The items that count, without the parts that do not. -/
def pruneItems : List Item → List Item
  | [] => []
  | .item e :: rest =>
    if (Item.item e).isSupported then .item e.prune :: pruneItems rest else pruneItems rest
  | .hole :: rest => .hole :: pruneItems rest
  | .spread :: rest => pruneItems rest

end

mutual

/-- Whether all parts of an expression count. -/
inductive Expr.Pruned : Expr → Prop where
  | reference (name : String) : Expr.Pruned (.reference name)
  | str (text : String) : Expr.Pruned (.str text)
  | template (text : String) : Expr.Pruned (.template text)
  | num (x : Binary64) : Expr.Pruned (.num x)
  | bool (b : Bool) : Expr.Pruned (.bool b)
  | null : Expr.Pruned .null
  | object {members : List Member} (each : ∀ x ∈ members, x.Pruned) : Expr.Pruned (.object members)
  | array {items : List Item} (each : ∀ x ∈ items, x.Pruned) : Expr.Pruned (.array items)
  | negative (e : Expr) : Expr.Pruned (.negative e)
  | parenthesized {e : Expr} (inner : e.Pruned) : Expr.Pruned (.parenthesized e)
  | cast {e : Expr} (inner : e.Pruned) : Expr.Pruned (.cast e)
  | satisfying {e : Expr} (inner : e.Pruned) : Expr.Pruned (.satisfying e)
  | present {e : Expr} (inner : e.Pruned) : Expr.Pruned (.present e)
  | other (form : Form) : Expr.Pruned (.other form)

/-- Whether a member counts, and all parts of its value. -/
inductive Member.Pruned : Member → Prop where
  | property (key : String) {e : Expr} (supported : e.isSupported = true) (inner : e.Pruned) :
    Member.Pruned (.property (.name key) e)

/-- Whether an item counts, and all its parts. -/
inductive Item.Pruned : Item → Prop where
  | item {e : Expr} (unnamed : e.isName = false) (supported : e.isSupported = true)
    (inner : e.Pruned) : Item.Pruned (.item e)
  | hole : Item.Pruned .hole

end

/-- Parts are left out inside parentheses and types. -/
theorem Expr.unwrapped_prune (e : Expr) : e.prune.unwrapped = e.unwrapped.prune := by
  fun_induction Expr.unwrapped e with
  | case1 e ih | case2 e ih | case3 e ih | case4 e ih => exact ih
  | case5 e => cases e <;> simp_all [Expr.prune, Expr.unwrapped]

/-- An expression is of its kind without the parts that do not count, too. -/
theorem Expr.isSupported_prune (e : Expr) : e.prune.isSupported = e.isSupported := by
  rw [isSupported, isSupported, unwrapped_prune]
  cases e.unwrapped <;> rfl

/-- An expression is a name without the parts that do not count only if it is one. -/
theorem Expr.isName_prune (e : Expr) : e.prune.isName = e.isName := by
  cases e <;> rfl

/-- A member that does not count is left out. -/
theorem pruneMembers_cons_of_unsupported {x : Member} (h : x.isSupported = false)
    (rest : List Member) : pruneMembers (x :: rest) = pruneMembers rest := by
  rcases x with ⟨key | key | _ | _, e⟩ | _ | _ | _
  case property.name =>
    rw [pruneMembers, if_neg]
    exact Bool.eq_false_iff.1 h
  all_goals
    rw [pruneMembers]
    rintro _ _ ⟨⟩

/-- An item that does not count is left out. -/
theorem pruneItems_cons_of_unsupported {x : Item} (h : x.isSupported = false) (rest : List Item) :
    pruneItems (x :: rest) = pruneItems rest := by
  cases x with
  | item e => rw [pruneItems, h, if_neg Bool.false_ne_true]
  | spread => rw [pruneItems]
  | hole => cases h

mutual

/-- All parts count that are not left out of an expression. -/
theorem Expr.pruned_prune (e : Expr) : e.prune.Pruned := by
  cases e with
  | object members => exact .object (pruned_pruneMembers members)
  | array items => exact .array (pruned_pruneItems items)
  | parenthesized e => exact .parenthesized e.pruned_prune
  | cast e => exact .cast e.pruned_prune
  | satisfying e => exact .satisfying e.pruned_prune
  | present e => exact .present e.pruned_prune
  | reference name => exact .reference name
  | str text => exact .str text
  | template text => exact .template text
  | num x => exact .num x
  | bool b => exact .bool b
  | null => exact .null
  | negative e => exact .negative e
  | other form => exact .other form

/-- The members that are not left out count, and so do all their parts that are left. -/
theorem pruned_pruneMembers (members : List Member) : ∀ x ∈ pruneMembers members, x.Pruned := by
  cases members with
  | nil =>
    intro x hx
    cases hx
  | cons x rest =>
    have later := pruned_pruneMembers rest
    by_cases counts : x.isSupported = true
    · rcases x with ⟨key | key | _ | _, e⟩ | _ | _ | _
      case property.name =>
        rw [pruneMembers, if_pos (by exact counts), List.forall_mem_cons]
        exact ⟨.property key (e.isSupported_prune.trans counts) e.pruned_prune, later⟩
      all_goals exact absurd counts Bool.false_ne_true
    · rw [pruneMembers_cons_of_unsupported (Bool.eq_false_iff.2 counts)]
      exact later

/-- The items that are not left out count, and so do all their parts that are left. -/
theorem pruned_pruneItems (items : List Item) : ∀ x ∈ pruneItems items, x.Pruned := by
  cases items with
  | nil =>
    intro x hx
    cases hx
  | cons x rest =>
    have later := pruned_pruneItems rest
    by_cases counts : x.isSupported = true
    · cases x with
      | item e =>
        obtain ⟨unnamed, supported⟩ := Bool.and_eq_true_iff.1 counts
        rw [pruneItems, if_pos counts, List.forall_mem_cons]
        refine ⟨.item ?_ (e.isSupported_prune.trans supported) e.pruned_prune, later⟩
        rw [e.isName_prune]
        simpa using unnamed
      | spread => exact absurd counts Bool.false_ne_true
      | hole =>
        rw [pruneItems, List.forall_mem_cons]
        exact ⟨.hole, later⟩
    · rw [pruneItems_cons_of_unsupported (Bool.eq_false_iff.2 counts)]
      exact later

end

end Script

namespace Codebase

variable (code : Codebase) (trail : Trail) (file : Path) (m : Module)

private theorem numberValue?_infinite {x : Binary64} (h : x.isFinite = false) :
    numberValue? x = none ∧ numberValue? x.neg = none := by
  cases x with
  | finite negative units => cases h
  | infinite negative => exact ⟨rfl, rfl⟩

/-- An expression of a kind that can have no value has none. -/
theorem valueOf_of_unsupported {e : Expr} (h : e.isSupported = false) :
    code.valueOf trail file m e = none := by
  rw [← valueOf_unwrapped]
  rw [Expr.isSupported] at h
  generalize e.unwrapped = inner at h
  cases inner with
  | num x => rw [valueOf, (numberValue?_infinite h).1]
  | negative e =>
    rw [valueOf.eq_def]
    cases e with
    | num x => exact (numberValue?_infinite h).2
    | _ => rfl
  | other form => rw [valueOf]
  | _ => cases h

/-- A member that does not count adds nothing to an object. -/
theorem memberValue?_of_unsupported {x : Member} (h : x.isSupported = false) :
    code.memberValue? trail file m x = none := by
  rcases x with ⟨key | key | _ | _, e⟩ | _ | _ | _
  case property.name =>
    rw [memberValue?, valueOf_of_unsupported code trail file m h, Option.map_none]
  all_goals rfl

/-- An item that does not count adds nothing to an array. -/
theorem itemValue?_of_unsupported {x : Item} (h : x.isSupported = false) :
    code.itemValue? trail file m x = none := by
  cases x with
  | item e =>
    by_cases named : e.isName = true
    · rw [itemValue?, if_pos named]
    · rw [Item.isSupported, Bool.eq_false_iff.2 named] at h
      rw [itemValue?, if_neg named, valueOf_of_unsupported code trail file m h]
  | spread => rfl
  | hole => cases h

mutual

/-- An expression has its value without the parts that do not count, too. -/
theorem valueOf_prune (e : Expr) :
    code.valueOf trail file m e.prune = code.valueOf trail file m e := by
  cases e with
  | object members => rw [Expr.prune, valueOf, valueOf, membersOf_prune members]
  | array items => rw [Expr.prune, valueOf, valueOf, itemsOf_prune items]
  | parenthesized e | cast e | satisfying e | present e =>
    rw [Expr.prune, valueOf, valueOf]
    exact valueOf_prune e
  | _ => rfl

/-- Members have their values without the parts that do not count, too. -/
theorem membersOf_prune (members : List Member) :
    code.membersOf trail file m (pruneMembers members) = code.membersOf trail file m members := by
  cases members with
  | nil => rfl
  | cons x rest =>
    have later := membersOf_prune rest
    by_cases counts : x.isSupported = true
    · rcases x with ⟨key | key | _ | _, e⟩ | _ | _ | _
      case property.name =>
        have same := valueOf_prune e
        rw [pruneMembers, if_pos (by exact counts), membersOf_cons, membersOf_cons, memberValue?,
          memberValue?, same, later]
      all_goals exact absurd counts Bool.false_ne_true
    · have unsupported := Bool.eq_false_iff.2 counts
      rw [pruneMembers_cons_of_unsupported unsupported, later, membersOf_cons,
        memberValue?_of_unsupported code trail file m unsupported]
      rfl

/-- Items have their values without the parts that do not count, too. -/
theorem itemsOf_prune (items : List Item) :
    code.itemsOf trail file m (pruneItems items) = code.itemsOf trail file m items := by
  cases items with
  | nil => rfl
  | cons x rest =>
    have later := itemsOf_prune rest
    by_cases counts : x.isSupported = true
    · cases x with
      | item e =>
        have same := valueOf_prune e
        rw [pruneItems, if_pos counts, itemsOf_cons, itemsOf_cons, itemValue?, itemValue?,
          e.isName_prune, same, later]
      | spread => exact absurd counts Bool.false_ne_true
      | hole => rw [pruneItems, itemsOf_cons, itemsOf_cons, later]
    · have unsupported := Bool.eq_false_iff.2 counts
      rw [pruneItems_cons_of_unsupported unsupported, later, itemsOf_cons,
        itemValue?_of_unsupported code trail file m unsupported]
      rfl

end

/-- Members add to an object wherever they stand. -/
theorem membersOf_append (before after : List Member) :
    code.membersOf trail file m (before ++ after) =
      code.membersOf trail file m before ++ code.membersOf trail file m after := by
  induction before with
  | nil => rw [membersOf, List.nil_append, List.nil_append]
  | cons x rest ih => rw [List.cons_append, membersOf_cons, membersOf_cons, ih, List.append_assoc]

/-- Items add to an array wherever they stand. -/
theorem itemsOf_append (before after : List Item) :
    code.itemsOf trail file m (before ++ after) =
      code.itemsOf trail file m before ++ code.itemsOf trail file m after := by
  induction before with
  | nil => rw [itemsOf, List.nil_append, List.nil_append]
  | cons x rest ih => rw [List.cons_append, itemsOf_cons, itemsOf_cons, ih, List.append_assoc]

end Codebase

/-- Without the parts that do not count an expression has the same value, in every module and file,
in every project and under every trail. So expressions that differ only in such parts have the same
value, object and array literals always have one, and a member or an item that does not count can
stand anywhere, even under a name that an earlier member has. -/
theorem Codebase.lookup_of_prune (e : Expr) :
    e.prune.Pruned ∧
    (∀ (code : Codebase) (trail : Trail) (file : Path) (m : Module),
      code.valueOf trail file m e.prune = code.valueOf trail file m e ∧
      (∀ e', e'.prune = e.prune → code.valueOf trail file m e' = code.valueOf trail file m e) ∧
      (∀ members, e.unwrapped = .object members →
        ∃ found, code.valueOf trail file m e = some (.obj found)) ∧
      (∀ items, e.unwrapped = .array items →
        ∃ found, code.valueOf trail file m e = some (.arr found)) ∧
      (∀ before x after, x.isSupported = false →
        code.valueOf trail file m (.object (before ++ x :: after)) =
          code.valueOf trail file m (.object (before ++ after))) ∧
      (∀ before x after, x.isSupported = false →
        code.valueOf trail file m (.array (before ++ x :: after)) =
          code.valueOf trail file m (.array (before ++ after)))) := by
  refine ⟨e.pruned_prune, fun code trail file m => ?_⟩
  refine ⟨code.valueOf_prune trail file m e, ?_, ?_, ?_, ?_, ?_⟩
  · intro e' same
    rw [← valueOf_prune, same, valueOf_prune]
  · intro members h
    rw [← valueOf_unwrapped, h, valueOf]
    exact ⟨_, rfl⟩
  · intro items h
    rw [← valueOf_unwrapped, h, valueOf]
    exact ⟨_, rfl⟩
  · intro before x after unsupported
    rw [valueOf, valueOf, membersOf_append, membersOf_append, membersOf_cons,
      memberValue?_of_unsupported code trail file m unsupported]
    rfl
  · intro before x after unsupported
    rw [valueOf, valueOf, itemsOf_append, itemsOf_append, itemsOf_cons,
      itemValue?_of_unsupported code trail file m unsupported]
    rfl

/-- A name is left out where it stands alone in an array, and a hole is kept. -/
example :
    (Expr.array [.item (.reference "x"), .hole, .item (.parenthesized (.reference "x")),
        .spread, .item (.object [.spread, .property (.quoted "k") .null])]).prune =
      .array [.hole, .item (.parenthesized (.reference "x")), .item (.object [])] := by
  rfl

end PageIndex
