import PageIndex.Number.Binary64

/-!
# Shortest decimals

The decimal with the fewest digits that still reads back as a given double, and of those the
one nearest to it. A decimal reads back when it lies in the interval of numbers that round to
the double, whose ends belong to it when the significand is even. Decimals with fewer digits
lie on coarser grids, so the search goes from coarse powers of ten to fine ones and takes the
first grid with a point in the interval.
-/

namespace PageIndex

/-- The number `digits * 10 ^ exponent`. -/
structure Decimal where
  digits : Nat
  exponent : Int
deriving Repr, DecidableEq, Inhabited

namespace Decimal

/-- The numbers that round to a double, in quarters of a unit. -/
structure Interval where
  low : Nat
  centre : Nat
  high : Nat
  closed : Bool

/-- The interval around a positive count of units. Below a power of two the neighbour is half
as far away as above it. -/
def Interval.around (units : Nat) : Interval :=
  let gap := Binary64.spacing units
  let below := if units = Nat.pow 2 52 * gap ∧ 1 < gap then gap else 2 * gap
  ⟨4 * units - below, 4 * units, 4 * units + 2 * gap, units / gap % 2 == 0⟩

/-- The point of the grid of spacing `10 ^ exponent` that is nearest to the centre, if one lies
in the interval. -/
def Interval.gridPoint? (i : Interval) (exponent : Int) : Option Nat :=
  let up := Nat.pow 10 (-exponent).toNat
  let step := 4 * Binary64.unitsPerOne * Nat.pow 10 exponent.toNat
  let inside (n : Nat) : Bool :=
    if i.closed then i.low * up ≤ n * step && n * step ≤ i.high * up
    else i.low * up < n * step && n * step < i.high * up
  let floor := i.centre * up / step
  let nearest := Binary64.roundHalfEven (i.centre * up) step
  let other := if nearest = floor then floor + 1 else floor
  if inside nearest then some nearest
  else if inside other then some other
  else none

/-- The finest exponent that the search reaches. -/
def finestExponent : Int :=
  -345

/-- Searches the grids from `10 ^ (fuel + finestExponent)` downwards. -/
def search (i : Interval) : (fuel : Nat) → Decimal
  | 0 => ⟨0, 0⟩
  | fuel + 1 =>
    let exponent := (fuel : Int) + finestExponent
    match i.gridPoint? exponent with
    | some n => ⟨n, exponent⟩
    | none => search i fuel

/-- The shortest decimal for a count of units of `2 ^ -1074`. -/
def shortest (units : Nat) : Decimal :=
  if units = 0 then ⟨0, 0⟩ else search (Interval.around units) 660

end Decimal

end PageIndex
