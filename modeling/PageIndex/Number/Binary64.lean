/-!
# Double precision numbers

The numbers a script can write: finite doubles and the two infinities. A finite double is a
sign and a count of the smallest positive double, `2 ^ -1074`, so every one of them is an
exact integer and rounding is integer arithmetic. Rounding is to the nearest double, and to
the one with an even significand when two are equally near.
-/

namespace PageIndex

/-- A double that is not a NaN: a signed count of units of `2 ^ -1074`, or an infinity. The
two signs of zero are kept apart. -/
inductive Binary64 where
  | finite (negative : Bool) (units : Nat)
  | infinite (negative : Bool)
deriving Repr, DecidableEq, Inhabited

namespace Binary64

/-- The number of units in one. -/
def unitsPerOne : Nat :=
  Nat.pow 2 1074

/-- The least count of units that is beyond every finite double. -/
def unitsLimit : Nat :=
  Nat.pow 2 2098

/-- The integer nearest to `num / den`, the even one of two equally near. -/
def roundHalfEven (num den : Nat) : Nat :=
  let whole := num / den
  let rest := num % den
  if 2 * rest < den then whole
  else if den < 2 * rest then whole + 1
  else if whole % 2 = 0 then whole
  else whole + 1

/-- The distance between neighbouring doubles from the largest power of two not above `units`
up to the next one: 53 significant bits are kept. -/
def spacing (units : Nat) : Nat :=
  Nat.pow 2 (units.log2 - 52)

/-- The double nearest to `num / den` with the given sign. -/
def ofRatio (negative : Bool) (num den : Nat) : Binary64 :=
  let scaled := num * unitsPerOne
  let gap := spacing (scaled / den)
  let units := roundHalfEven scaled (den * gap) * gap
  if units < unitsLimit then .finite negative units else .infinite negative

/-- The double nearest to a natural number. -/
def ofNat (n : Nat) : Binary64 :=
  ofRatio false n 1

/-- The double nearest to `digits * 10 ^ exponent`. Exponents far outside the range of doubles
are decided by their size, so that no power of ten of that size is built. -/
def ofDecimal (digits : Nat) (exponent : Int) : Binary64 :=
  if digits = 0 then .finite false 0
  else if 400 < exponent then .infinite false
  else if exponent < -(400 + (digits.log2 : Int)) then .finite false 0
  else ofRatio false (digits * Nat.pow 10 exponent.toNat) (Nat.pow 10 (-exponent).toNat)

/-- The number with the other sign. -/
def neg : Binary64 → Binary64
  | .finite negative units => .finite (!negative) units
  | .infinite negative => .infinite (!negative)

/-- The integer a finite double without a fractional part stands for; both zeros are 0. -/
def toInt? : Binary64 → Option Int
  | .finite negative units =>
    if units % unitsPerOne = 0 then
      let n : Int := (units / unitsPerOne : Nat)
      some (if negative then -n else n)
    else none
  | .infinite _ => none

/-- The double nearest to the product. Infinities absorb everything. -/
def mul : Binary64 → Binary64 → Binary64
  | .finite s m, .finite t n => ofRatio (s != t) (m * n) (unitsPerOne * unitsPerOne)
  | .finite s _, .infinite t => .infinite (s != t)
  | .infinite s, .finite t _ => .infinite (s != t)
  | .infinite s, .infinite t => .infinite (s != t)

/-- The double nearest to the quotient of a finite double by a positive finite one. -/
def div : Binary64 → Binary64 → Binary64
  | .finite s m, .finite t n => ofRatio (s != t) m n
  | .finite s _, .infinite t => .finite (s != t) 0
  | .infinite s, .finite t _ => .infinite (s != t)
  | .infinite s, .infinite t => .infinite (s != t)

/-- The double nearest to `x * base + digit`, where `x` is not negative. -/
def shiftIn (x : Binary64) (base digit : Nat) : Binary64 :=
  match x with
  | .finite _ units => ofRatio false (units * base + digit * unitsPerOne) unitsPerOne
  | .infinite s => .infinite s

/-- Whether the number is a finite double. -/
def isFinite : Binary64 → Bool
  | .finite _ _ => true
  | .infinite _ => false

/-- The opposite number stands for the opposite integer. -/
theorem toInt?_neg (x : Binary64) : x.neg.toInt? = x.toInt?.map (- ·) := by
  cases x with
  | finite negative units =>
    rw [neg, toInt?, toInt?]
    split
    · cases negative
      · rfl
      · exact congrArg some (Int.neg_neg _).symm
    · rfl
  | infinite negative => rfl

private theorem pow_two_pos (k : Nat) : 0 < Nat.pow 2 k :=
  Nat.two_pow_pos k

-- Only this is ever needed of the size of a unit, and it keeps the power from being computed.
private theorem exists_unitsPerOne_eq : ∃ k, 52 ≤ k ∧ unitsPerOne = Nat.pow 2 k :=
  ⟨1074, by decide, by decide +kernel⟩

private theorem unitsPerOne_pos : 0 < unitsPerOne := by
  obtain ⟨k, -, hk⟩ := exists_unitsPerOne_eq
  exact hk ▸ pow_two_pos k

private theorem log2_mul_pow {n : Nat} (pos : 0 < n) (k : Nat) :
    (n * Nat.pow 2 k).log2 = n.log2 + k := by
  have low : 2 ^ n.log2 ≤ n := Nat.log2_self_le (Nat.ne_of_gt pos)
  have high : n < 2 ^ (n.log2 + 1) := Nat.lt_log2_self
  rw [Nat.log2_eq_iff (Nat.ne_of_gt (Nat.mul_pos pos (pow_two_pos k))), Nat.add_right_comm,
    Nat.pow_add, Nat.pow_add]
  exact ⟨Nat.mul_le_mul_right _ low, Nat.mul_lt_mul_of_pos_right high (pow_two_pos k)⟩

private theorem spacing_dvd {n : Nat} (pos : 0 < n) (small : n < Nat.pow 2 53) :
    spacing (n * unitsPerOne) ∣ n * unitsPerOne := by
  obtain ⟨k, large, hk⟩ := exists_unitsPerOne_eq
  have bits : n.log2 < 53 := (Nat.log2_lt (Nat.ne_of_gt pos)).2 small
  rw [hk, spacing, log2_mul_pow pos]
  exact Nat.dvd_mul_left_of_dvd (Nat.pow_dvd_pow 2 (by omega)) n

private theorem roundHalfEven_of_dvd {num den : Nat} (h : den ∣ num) (pos : 0 < den) :
    roundHalfEven num den * den = num := by
  obtain ⟨n, rfl⟩ := h
  simp [roundHalfEven, Nat.mul_div_cancel_left n pos, pos, Nat.mul_comm]

private theorem units_lt_unitsLimit {n : Nat} (small : n < Nat.pow 2 53) :
    n * unitsPerOne < unitsLimit := by
  have pos := unitsPerOne_pos
  have bound : Nat.pow 2 53 * unitsPerOne < unitsLimit := by decide +kernel
  generalize unitsPerOne = one at pos bound ⊢
  exact Nat.lt_trans (Nat.mul_lt_mul_of_pos_right small pos) bound

/-- A natural number of at most 53 bits is itself a double. -/
theorem toInt?_ofNat {n : Nat} (small : n < Nat.pow 2 53) : (ofNat n).toInt? = some (n : Int) := by
  have rounded : roundHalfEven (n * unitsPerOne) (spacing (n * unitsPerOne)) *
      spacing (n * unitsPerOne) = n * unitsPerOne := by
    obtain rfl | pos := Nat.eq_zero_or_pos n
    · rw [Nat.zero_mul]
      decide +kernel
    · exact roundHalfEven_of_dvd (spacing_dvd pos small) (pow_two_pos _)
  simp only [ofNat, ofRatio, Nat.div_one, Nat.one_mul]
  rw [rounded, if_pos (units_lt_unitsLimit small), toInt?, if_pos (Nat.mul_mod_left n unitsPerOne),
    Nat.mul_div_cancel n unitsPerOne_pos]
  rfl

end Binary64

end PageIndex
