import PageIndex.Proofs.Lookup.Session

/-!
# Values written down

An expression can write a JSON value down: objects and arrays as literals, texts as strings or
templates, numbers as numerals with a minus in front of them where they are negative, and with
parentheses or types around any part. `Expr.Writes` relates such an expression to its value. A value
has many expressions, but an expression has one value, and that is what a lookup finds. Nothing else
matters to it, neither the module nor the other files of a project nor what is looked for already.
The main statement is `lookup_of_writes`.
-/

namespace PageIndex

open Script

/-- Whether a value can be written down: its numbers are integers that doubles tell apart, and each
of its objects has a name once. -/
inductive Json.Writable : Json → Prop where
  | null : Writable .null
  | bool (b : Bool) : Writable (.bool b)
  | int {n : Int} (small : n.natAbs < Nat.pow 2 53) : Writable (.int n)
  | str (s : String) : Writable (.str s)
  | arr {items : List Json} (all : ∀ v ∈ items, Writable v) : Writable (.arr items)
  | obj {members : List (String × Json)} (once : (Members.names members).Nodup)
    (all : ∀ p ∈ members, Writable p.2) : Writable (.obj members)

namespace Script

mutual

/-- Whether an expression writes a value down. -/
inductive Expr.Writes : Expr → Json → Prop where
  | null : Expr.Writes .null .null
  | bool (b : Bool) : Expr.Writes (.bool b) (.bool b)
  | str (s : String) : Expr.Writes (.str s) (.str s)
  | template (s : String) : Expr.Writes (.template s) (.str s)
  | num {x : Binary64} {n : Nat} (value : x.toInt? = some (n : Int)) :
    Expr.Writes (.num x) (.int n)
  /-- The operand of a minus is a bare numeral. -/
  | negative {x : Binary64} {n : Nat} (value : x.toInt? = some (n : Int)) (pos : 0 < n) :
    Expr.Writes (.negative (.num x)) (.int (-(n : Int)))
  | array {items : List Item} {values : List Json} (each : Item.WriteAll items values) :
    Expr.Writes (.array items) (.arr values)
  | object {members : List Member} {entries : List (String × Json)}
    (each : Member.WriteAll members entries) : Expr.Writes (.object members) (.obj entries)
  | parenthesized {e : Expr} {v : Json} (inner : e.Writes v) : Expr.Writes (.parenthesized e) v
  | cast {e : Expr} {v : Json} (inner : e.Writes v) : Expr.Writes (.cast e) v
  | satisfying {e : Expr} {v : Json} (inner : e.Writes v) : Expr.Writes (.satisfying e) v
  | present {e : Expr} {v : Json} (inner : e.Writes v) : Expr.Writes (.present e) v

/-- Whether items write values down, one each. A hole writes `null` down. -/
inductive Item.WriteAll : List Item → List Json → Prop where
  | nil : Item.WriteAll [] []
  | item {e : Expr} {v : Json} {items : List Item} {values : List Json} (first : e.Writes v)
    (rest : Item.WriteAll items values) : Item.WriteAll (.item e :: items) (v :: values)
  | hole {items : List Item} {values : List Json} (rest : Item.WriteAll items values) :
    Item.WriteAll (.hole :: items) (.null :: values)

/-- Whether members write named values down, one each, under plain names and in their order. -/
inductive Member.WriteAll : List Member → List (String × Json) → Prop where
  | nil : Member.WriteAll [] []
  | property {key : String} {e : Expr} {v : Json} {members : List Member}
    {entries : List (String × Json)} (first : e.Writes v)
    (rest : Member.WriteAll members entries) :
    Member.WriteAll (.property (.name key) e :: members) ((key, v) :: entries)

end

private theorem exists_writeAll_items {values : List Json}
    (h : ∀ v ∈ values, ∃ e : Expr, e.Writes v) : ∃ items, Item.WriteAll items values := by
  induction values with
  | nil => exact ⟨[], .nil⟩
  | cons v values ih =>
    obtain ⟨e, first⟩ := h v List.mem_cons_self
    obtain ⟨items, rest⟩ := ih fun w hw => h w (List.mem_cons_of_mem v hw)
    exact ⟨.item e :: items, .item first rest⟩

private theorem exists_writeAll_members {entries : List (String × Json)}
    (h : ∀ p ∈ entries, ∃ e : Expr, e.Writes p.2) : ∃ members, Member.WriteAll members entries := by
  induction entries with
  | nil => exact ⟨[], .nil⟩
  | cons p entries ih =>
    obtain ⟨e, first⟩ := h p List.mem_cons_self
    obtain ⟨members, rest⟩ := ih fun q hq => h q (List.mem_cons_of_mem p hq)
    exact ⟨.property (.name p.1) e :: members, .property first rest⟩

/-- Every value that can be written down has an expression that does so. -/
theorem Expr.exists_writes {v : Json} (h : v.Writable) : ∃ e : Expr, e.Writes v := by
  induction h with
  | null => exact ⟨.null, .null⟩
  | bool b => exact ⟨.bool b, .bool b⟩
  | str s => exact ⟨.str s, .str s⟩
  | @int n small =>
    cases n with
    | ofNat n => exact ⟨.num (.ofNat n), .num (Binary64.toInt?_ofNat small)⟩
    | negSucc n =>
      exact ⟨.negative (.num (.ofNat (n + 1))),
        .negative (Binary64.toInt?_ofNat small) (Nat.succ_pos n)⟩
  | arr all ih =>
    obtain ⟨items, each⟩ := exists_writeAll_items ih
    exact ⟨.array items, .array each⟩
  | obj once all ih =>
    obtain ⟨members, each⟩ := exists_writeAll_members ih
    exact ⟨.object members, .object each⟩

end Script

namespace Codebase

variable (code : Codebase) (trail : Trail) (file : Path) (m : Module)

private theorem numberValue?_of_small {x : Binary64} {n : Int} (value : x.toInt? = some n)
    (small : n.natAbs < Nat.pow 2 53) : numberValue? x = some (.int n) := by
  simp only [numberValue?, value, if_pos small]

private theorem itemsOf_item {e : Expr} {v : Json} (written : e.Writes v)
    (found : code.valueOf trail file m e = some v) (items : List Item) :
    code.itemsOf trail file m (.item e :: items) = v :: code.itemsOf trail file m items := by
  -- A name that stands alone would be dropped, but it writes nothing down.
  have unnamed (name : String) : e ≠ .reference name := by
    rintro rfl
    cases written
  rw [itemsOf, found]
  exact fun name h => unnamed name h

mutual

/-- An expression that writes a value down has that value. -/
theorem valueOf_of_writes {e : Expr} {v : Json} (written : e.Writes v) (h : v.Writable) :
    code.valueOf trail file m e = some v := by
  cases written with
  | null | bool | str | template => rw [valueOf]
  | num value =>
    cases h with
    | int small => rw [valueOf, numberValue?_of_small value small]
  | @negative x n value pos =>
    cases h with
    | int small =>
      have opposite : x.neg.toInt? = some (-(n : Int)) := by
        rw [Binary64.toInt?_neg, value, Option.map_some]
      rw [valueOf, numberValue?_of_small opposite small]
  | array each =>
    cases h with
    | arr all => rw [valueOf, itemsOf_of_writeAll each all]
  | object each =>
    cases h with
    | obj once all => rw [valueOf, membersOf_of_writeAll each all, Members.ofList_eq_self once]
  | parenthesized inner | cast inner | satisfying inner | present inner =>
    rw [valueOf]
    exact valueOf_of_writes inner h

/-- Items that write values down have these values, and each is in its place. -/
theorem itemsOf_of_writeAll {items : List Item} {values : List Json}
    (written : Item.WriteAll items values) (h : ∀ v ∈ values, v.Writable) :
    code.itemsOf trail file m items = values := by
  cases written with
  | nil => rw [itemsOf]
  | item first rest =>
    have found := valueOf_of_writes first (h _ List.mem_cons_self)
    rw [itemsOf_item code trail file m first found,
      itemsOf_of_writeAll rest fun v hv => h v (List.mem_cons_of_mem _ hv)]
  | hole rest =>
    rw [itemsOf, itemsOf_of_writeAll rest fun v hv => h v (List.mem_cons_of_mem _ hv)]

/-- Members that write named values down have these values under these names. -/
theorem membersOf_of_writeAll {members : List Member} {entries : List (String × Json)}
    (written : Member.WriteAll members entries) (h : ∀ p ∈ entries, p.2.Writable) :
    code.membersOf trail file m members = entries := by
  cases written with
  | nil => rw [membersOf]
  | property first rest =>
    have found := valueOf_of_writes first (h _ List.mem_cons_self)
    rw [membersOf, found, membersOf_of_writeAll rest fun p hp => h p (List.mem_cons_of_mem _ hp)]

end

/-- A value that can be written down has an expression, and whatever expression writes it down, a
lookup finds just this value and leaves the trail as it was: in every module and file, in every
project and under every trail. -/
theorem lookup_of_writes {v : Json} (h : v.Writable) :
    (∃ e : Expr, e.Writes v) ∧
      ∀ e : Expr, e.Writes v → ∀ (code : Codebase) (trail : Trail) (file : Path) (m : Module),
        code.valueOf trail file m e = some v ∧
        Session.Returns (fun room => Session.perform code room (.value file m e)) trail
          (some v) := by
  refine ⟨Expr.exists_writes h, fun e written code trail file m => ?_⟩
  have found := code.valueOf_of_writes trail file m written h
  have returned := Session.perform_returns code trail (.value file m e)
  rw [Codebase.answer, found] at returned
  exact ⟨found, returned⟩

/-- A value with a hole, a negative number and an empty array in it. -/
def levelsValue : Json :=
  .obj [("title", .str "Docs"), ("levels", .arr [.null, .int (-3), .arr []])]

/-- An expression that writes the value down with types and parentheses around its parts. -/
def levelsExpr : Expr :=
  .satisfying (.object
    [.property (.name "title") (.parenthesized (.cast (.template "Docs"))),
      .property (.name "levels") (.array
        [.hole, .item (.parenthesized (.negative (.num (.ofNat 3)))),
          .item (.present (.array []))])])

private theorem writable_levelsValue : levelsValue.Writable := by
  refine .obj (by decide) ?_
  simp only [List.forall_mem_cons]
  refine ⟨.str _, .arr ?_, fun _ h => by cases h⟩
  simp only [List.forall_mem_cons]
  exact ⟨.null, .int (by decide), .arr (fun _ h => by cases h), fun _ h => by cases h⟩

private theorem writes_levelsExpr : levelsExpr.Writes levelsValue := by
  refine .satisfying (.object (.property (.parenthesized (.cast (.template _)))
    (.property (.array (.hole (.item (.parenthesized ?_) (.item ?_ .nil)))) .nil)))
  · exact .negative (n := 3) (Binary64.toInt?_ofNat (by decide)) (by decide)
  · exact .present (.array .nil)

/-- A lookup of that expression finds that value. -/
theorem lookup_of_writes_levels :
    levelsValue.Writable ∧ levelsExpr.Writes levelsValue ∧
      empty.valueOf [] ⟨"page.ts"⟩ ⟨[]⟩ levelsExpr = some levelsValue :=
  ⟨writable_levelsValue, writes_levelsExpr,
    ((lookup_of_writes writable_levelsValue).2 levelsExpr writes_levelsExpr empty [] ⟨"page.ts"⟩
      ⟨[]⟩).1⟩

end Codebase

end PageIndex
