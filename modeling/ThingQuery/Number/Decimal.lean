import ThingQuery.Number.Binary64

/-!
# Decimal texts of binary floating-point numbers

A number is written with the fewest decimal digits that read back as the same number (`Magnitude.shortest`), in
positional notation for decimal exponents from -5 to 15 and in scientific notation outside (`Binary64.toText`).
A decimal is read by scaling its leading digits by one rounded power of ten (`Magnitude.ofDecimal?`).
-/

namespace ThingQuery

/-- The number `digits * 10 ^ exponent`. -/
structure Decimal where
  /-- The decimal digits as one natural number. -/
  digits : Nat
  /-- The power of ten that scales them. -/
  exponent : Int
  deriving DecidableEq

namespace Decimal

/-- The magnitude nearest to a decimal, or `none` when that is too large. -/
def nearest? (d : Decimal) : Option Magnitude :=
  if 0 ≤ d.exponent then
    Magnitude.ofUnits? (d.digits * tenPow d.exponent.toNat * unitsPerOne) 1
  else
    Magnitude.ofUnits? (d.digits * unitsPerOne) (tenPow (-d.exponent).toNat)

/-- The decimal digits without the zeros at their end. -/
def significantDigits (d : Decimal) : List Char :=
  ((Nat.toDigits 10 d.digits).reverse.dropWhile (· == '0')).reverse

/-- The exponent of the first digit: the decimal is `d.ddd * 10 ^ leadingExponent`. -/
def leadingExponent (d : Decimal) : Int :=
  d.exponent + (Nat.toDigits 10 d.digits).length - 1

/-- Positional notation with at least one digit on each side of the point. -/
def positional (digits : List Char) (leading : Int) : List Char :=
  if leading < 0 then
    '0' :: '.' :: (List.replicate (-leading - 1).toNat '0' ++ digits)
  else
    let whole := leading.toNat + 1
    let padded := digits ++ List.replicate (whole - digits.length) '0'
    let fraction := digits.drop whole
    padded.take whole ++ '.' :: (if fraction.isEmpty then ['0'] else fraction)

/-- Scientific notation with a signed exponent and no needless digit after the point. -/
def scientific (digits : List Char) (leading : Int) : List Char :=
  let sign := if leading < 0 then '-' else '+'
  let tail := digits.drop 1
  digits.take 1 ++ (if tail.isEmpty then [] else '.' :: tail) ++ 'e' :: sign :: Nat.toDigits 10 leading.natAbs

/-- The text of a positive decimal: positional when the exponent of its first digit is in -5 .. 15. -/
def toText (d : Decimal) : List Char :=
  let leading := d.leadingExponent
  if -5 ≤ leading && leading ≤ 15 then positional d.significantDigits leading
  else scientific d.significantDigits leading

end Decimal

namespace Magnitude

/-- A power of ten that is large enough to give every positive magnitude a hundred whole digits. -/
def scale : Nat := tenPow 424

/-- The two decimals of `count` digits next to a magnitude, the nearer first; of two equally near ones the one with
an even last digit comes first. -/
def neighbours (a : Magnitude) (count : Nat) : List Decimal :=
  let length := (Nat.toDigits 10 (a.units * scale / unitsPerOne)).length
  let step := unitsPerOne * tenPow (length - count)
  let exponent : Int := (length - count : Nat) - (424 : Int)
  let near := divNearest (a.units * scale) step
  let below := a.units * scale / step
  let other := if near = below then below + 1 else below
  [⟨near, exponent⟩, ⟨other, exponent⟩]

/-- The decimal of `count` digits that reads back as the magnitude, the nearer of two. -/
def readBack? (a : Magnitude) (count : Nat) : Option Decimal :=
  (a.neighbours count).find? fun d => decide (d.nearest? = some a)

/-- The decimal with the fewest digits that reads back as the magnitude.  Seventeen digits always do, and the digits in
full stand for the case that cannot arise. -/
def shortest (a : Magnitude) : Decimal :=
  ((List.range 17).findSome? fun fewer => a.readBack? (fewer + 1)).getD ⟨a.units * scale / unitsPerOne, -424⟩

/-- The decimal text of a magnitude. -/
def toText (a : Magnitude) : List Char := if a.units = 0 then ['0', '.', '0'] else a.shortest.toText

/-- The rounded power of ten. -/
def powerOfTen? (n : Nat) : Option Magnitude := ofNat? (tenPow n)

/-- Division by `10 ^ n` in rounded steps: by `big` as long as `n` exceeds its exponent `most`, then by the rest. -/
def shrinkBy? (big : Magnitude) (most : Nat) (a : Magnitude) (n : Nat) : Option Magnitude :=
  if n ≤ most ∨ most = 0 then
    (powerOfTen? n).bind a.div?
  else if a.units = 0 then
    some a
  else
    (a.div? big).bind fun b => shrinkBy? big most b (n - most)
termination_by n

/-- Division by `10 ^ n`, in steps of at most `10 ^ 308`. -/
def shrink? (a : Magnitude) (n : Nat) : Option Magnitude :=
  (powerOfTen? 308).bind fun big => shrinkBy? big 308 a n

/-- The magnitude of a decimal whose digits fit in 64 bits: the rounded digits scaled by the rounded power of ten. -/
def ofDecimal? (d : Decimal) : Option Magnitude :=
  (ofNat? d.digits).bind fun a =>
    if d.exponent < 0 then a.shrink? (-d.exponent).toNat
    else if d.exponent ≤ 308 then (powerOfTen? d.exponent.toNat).bind a.mul?
    else if a.units = 0 then some a
    else none

/-- Fixed notation with `places` digits after the point, an exact half going to the even last digit. -/
def toFixed (a : Magnitude) (places : Nat) : List Char :=
  let scaled := divNearest (a.units * tenPow places) unitsPerOne
  let fraction := Nat.toDigits 10 (scaled % tenPow places)
  Nat.toDigits 10 (scaled / tenPow places) ++ '.' :: (List.replicate (places - fraction.length) '0' ++ fraction)

end Magnitude

namespace Binary64

/-- The decimal text of a number, with a minus sign in front of negative ones and of the negative zero. -/
def toText (x : Binary64) : String :=
  String.ofList ((if x.negative then ['-'] else []) ++ x.magnitude.toText)

end Binary64

end ThingQuery
