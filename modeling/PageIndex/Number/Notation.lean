import PageIndex.Number.Shortest

/-!
# Decimal notation

How the digits of a decimal are laid out: positional notation for exponents in a given range,
scientific notation outside it. The range and the marks are a value of `Layout`, so that each
format of this library states its own.
-/

namespace PageIndex.Decimal

/-- The choices of a format for decimals. -/
structure Layout where
  /-- The least exponent of the first digit that is written in positional notation. -/
  positionalFrom : Int
  /-- The greatest exponent of the first digit that is written in positional notation. -/
  positionalTo : Int
  /-- What follows a number without a fractional part in positional notation. -/
  wholeSuffix : List Char
  /-- The mark before the exponent in scientific notation. -/
  exponentMark : List Char
  /-- The sign of an exponent that is not negative. -/
  exponentPlus : List Char

/-- The text of a natural number in base ten. -/
def natText (n : Nat) : List Char :=
  Nat.toDigits 10 n

/-- The text of an integer in base ten. -/
def intText : Int → List Char
  | .ofNat n => natText n
  | .negSucc n => '-' :: natText (n + 1)

/-- Positional notation of `ds * 10 ^ exponent`. -/
def positional (layout : Layout) (ds : List Char) (exponent : Int) : List Char :=
  if 0 ≤ exponent then
    ds ++ List.replicate exponent.toNat '0' ++ layout.wholeSuffix
  else
    let places := (-exponent).toNat
    if places < ds.length then
      ds.take (ds.length - places) ++ '.' :: ds.drop (ds.length - places)
    else
      '0' :: '.' :: (List.replicate (places - ds.length) '0' ++ ds)

/-- Scientific notation of the digits `ds`, the first of which has the given exponent. -/
def scientific (layout : Layout) (ds : List Char) (exponent : Int) : List Char :=
  let significand :=
    match ds with
    | first :: second :: rest => first :: '.' :: second :: rest
    | short => short
  let sign := if exponent < 0 then ['-'] else layout.exponentPlus
  significand ++ layout.exponentMark ++ sign ++ natText exponent.natAbs

/-- The text of a decimal. -/
def toText (layout : Layout) (d : Decimal) : List Char :=
  let ds := natText d.digits
  let leading := d.exponent + (ds.length : Int) - 1
  if layout.positionalFrom ≤ leading && leading ≤ layout.positionalTo then
    positional layout ds d.exponent
  else scientific layout ds leading

end PageIndex.Decimal
