import PageIndex.Script.Tree

/-!
# Telling modules apart

Whether two modules are the same can be decided. Expressions, the members of object literals and
the items of array literals are compared part by part.
-/

namespace PageIndex.Script

mutual

/-- Whether two expressions are the same. -/
def Expr.same : Expr → Expr → Bool
  | .reference a, .reference b => a == b
  | .str a, .str b => a == b
  | .template a, .template b => a == b
  | .num a, .num b => a == b
  | .bool a, .bool b => a == b
  | .null, .null => true
  | .object a, .object b => Member.allSame a b
  | .array a, .array b => Item.allSame a b
  | .negative a, .negative b => a.same b
  | .parenthesized a, .parenthesized b => a.same b
  | .cast a, .cast b => a.same b
  | .satisfying a, .satisfying b => a.same b
  | .present a, .present b => a.same b
  | .other a, .other b => a == b
  | _, _ => false

/-- Whether two members are the same. -/
def Member.same : Member → Member → Bool
  | .property k a, .property l b => k == l && a.same b
  | .method k, .method l => k == l
  | .accessor k, .accessor l => k == l
  | .spread, .spread => true
  | _, _ => false

/-- Whether two lists of members are the same. -/
def Member.allSame : List Member → List Member → Bool
  | [], [] => true
  | a :: l, b :: r => a.same b && Member.allSame l r
  | _, _ => false

/-- Whether two items are the same. -/
def Item.same : Item → Item → Bool
  | .item a, .item b => a.same b
  | .spread, .spread => true
  | .hole, .hole => true
  | _, _ => false

/-- Whether two lists of items are the same. -/
def Item.allSame : List Item → List Item → Bool
  | [], [] => true
  | a :: l, b :: r => a.same b && Item.allSame l r
  | _, _ => false

end

mutual

private theorem Expr.same_iff : (a b : Expr) → (a.same b = true ↔ a = b)
  | .object members, b => by cases b <;> simp [Expr.same, Member.allSame_iff members]
  | .array items, b => by cases b <;> simp [Expr.same, Item.allSame_iff items]
  | .negative a, b => by cases b <;> simp [Expr.same, Expr.same_iff a]
  | .parenthesized a, b => by cases b <;> simp [Expr.same, Expr.same_iff a]
  | .cast a, b => by cases b <;> simp [Expr.same, Expr.same_iff a]
  | .satisfying a, b => by cases b <;> simp [Expr.same, Expr.same_iff a]
  | .present a, b => by cases b <;> simp [Expr.same, Expr.same_iff a]
  | .reference _, b => by cases b <;> simp [Expr.same]
  | .str _, b => by cases b <;> simp [Expr.same]
  | .template _, b => by cases b <;> simp [Expr.same]
  | .num _, b => by cases b <;> simp [Expr.same]
  | .bool _, b => by cases b <;> simp [Expr.same]
  | .null, b => by cases b <;> simp [Expr.same]
  | .other _, b => by cases b <;> simp [Expr.same]

private theorem Member.same_iff : (a b : Member) → (a.same b = true ↔ a = b)
  | .property k a, b => by cases b <;> simp [Member.same, Expr.same_iff a]
  | .method _, b => by cases b <;> simp [Member.same]
  | .accessor _, b => by cases b <;> simp [Member.same]
  | .spread, b => by cases b <;> simp [Member.same]

private theorem Member.allSame_iff : (l r : List Member) → (Member.allSame l r = true ↔ l = r)
  | [], r => by cases r <;> simp [Member.allSame]
  | a :: l, r => by cases r <;> simp [Member.allSame, Member.same_iff a, Member.allSame_iff l]

private theorem Item.same_iff : (a b : Item) → (a.same b = true ↔ a = b)
  | .item a, b => by cases b <;> simp [Item.same, Expr.same_iff a]
  | .spread, b => by cases b <;> simp [Item.same]
  | .hole, b => by cases b <;> simp [Item.same]

private theorem Item.allSame_iff : (l r : List Item) → (Item.allSame l r = true ↔ l = r)
  | [], r => by cases r <;> simp [Item.allSame]
  | a :: l, r => by cases r <;> simp [Item.allSame, Item.same_iff a, Item.allSame_iff l]

end

/-- Whether two expressions are equal can be decided. -/
instance : DecidableEq Expr :=
  fun a b => decidable_of_iff _ (Expr.same_iff a b)

deriving instance DecidableEq for Declarator
deriving instance DecidableEq for Statement
deriving instance DecidableEq for Module

end PageIndex.Script
