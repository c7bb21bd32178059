/-
  Numbers of arbitrary precision in their binary form, and the fractions they are
  read as.

  * A `Numeric` is a sign, a scale and places of the base 10000, as it is sent.
  * `fit` is a number with as many digits after the point as 96 bits have room for.
  * `Numeric.magnitude?` adds up the places, the highest first, each sum cut to what
    there is room for; a number whose whole part is larger is not read.
  * `Numeric.decimal?` rounds the sum to the digits that are shown.
  * `Decimal96.toDouble` adds up whole and fractional part and rounds the sum to
    the digits of the decimal.
-/
import RecordGraph.Number.Binary
import RecordGraph.Number.Places

namespace RecordGraph.Postgres

/-- A number as it is sent. -/
structure Numeric where
  negative : Bool
  /-- How many digits after the point are shown. -/
  scale : Nat
  /-- The power of 10000 that the first place stands for. -/
  weight : Int
  /-- Places of the base 10000, the highest first. -/
  places : List Nat
  deriving DecidableEq

/-- A decimal: `± mantissa / 10 ^ scale`. -/
structure Decimal96 where
  negative : Bool
  mantissa : Nat
  scale : Nat
  deriving DecidableEq

namespace Numeric

/-! ## The binary form -/

/-- Pairs of bytes as numbers, as many as wanted. -/
def readPlaces : (count : Nat) → List UInt8 → Option (List Nat)
  | 0, _ => some []
  | count + 1, a :: b :: rest => (readPlaces count rest).map (ofBigEndian [a, b] :: ·)
  | _ + 1, _ => none

/-- The first of the signs of what is infinite or not a number. -/
def firstSpecialSign : Nat := 0xC000

/-- The sign, from the number that stands for it. -/
def readSign (n : Nat) : Option Bool := if n < firstSpecialSign then some (n == 0x4000) else none

/-- The number that some bytes stand for: the count of the places, the weight, the
    sign and the scale, and then the places. -/
def read? : List UInt8 → Option Numeric
  | c₁ :: c₂ :: w₁ :: w₂ :: s₁ :: s₂ :: d₁ :: d₂ :: rest => do
    let places ← readPlaces (ofBigEndian [c₁, c₂]) rest
    let negative ← readSign (ofBigEndian [s₁, s₂])
    return ⟨negative, ofBigEndian [d₁, d₂], intOfBigEndian [w₁, w₂], places⟩
  | _ => none

end Numeric

/-! ## The value -/

/-- One more than the greatest mantissa: what 96 bits have no room for. -/
def mantissaLimit : Nat := Nat.pow 2 96

/-- The greatest scale of a decimal. -/
def greatestScale : Nat := 28

/-- How many places of the base 10000 are after the point at the greatest scale; also
    the exponent of the greatest power of 10000 that 96 bits have room for. -/
def greatestPlace : Nat := 7

/-- The mantissa of `q ≥ 0` at the largest scale up to the given one at which the
    rounded mantissa has room, and that scale. -/
def fit (round : Rat → Int) (q : Rat) : (scale : Nat) → Option (Nat × Nat)
  | 0 => if (round q).toNat < mantissaLimit then some ((round q).toNat, 0) else none
  | scale + 1 =>
    let mantissa := (round (q * Nat.pow 10 (scale + 1))).toNat
    if mantissa < mantissaLimit then some (mantissa, scale + 1) else fit round q scale

/-- A sum with as many digits as there is room for; a half goes to the even digit. -/
def settle (q : Rat) : Option Rat :=
  (fit roundHalfEven q greatestScale).map fun (mantissa, scale) => mkRat mantissa (Nat.pow 10 scale)

/-- What a digit in a place after the point adds.  The first place without room rounds
    the last digit up or not, and later ones add nothing. -/
def placeValue (digit place : Nat) : Rat :=
  if place ≤ greatestPlace then mkRat digit (Nat.pow 10000 place)
  else if place = greatestPlace + 1 ∧ 5000 ≤ digit then mkRat 1 (Nat.pow 10 greatestScale)
  else 0

/-- Adds places after the point, of which `place` is the first. -/
def addPlaces (q : Rat) (place : Nat) : (digits : List Nat) → Option Rat
  | [] => some q
  | digit :: digits =>
    if greatestPlace + 1 < place then some q
    else (settle (q + placeValue digit place)).bind fun q => addPlaces q (place + 1) digits

namespace Numeric

/-- How many places are before the point, those that are not sent among them. -/
def wholePlaces (n : Numeric) : Nat := (n.weight + 1).toNat

/-- The whole part.  The places that are not sent are zeros, and their power of 10000
    needs room of its own. -/
def whole? (n : Numeric) : Option Nat :=
  let missing := n.wholePlaces - n.places.length
  if greatestPlace < missing then none
  else
    let whole := ofPlaces 10000 (n.places.take n.wholePlaces) * Nat.pow 10000 missing
    if whole < mantissaLimit then some whole else none

/-- The magnitude, as far as there is room for its digits. -/
def magnitude? (n : Numeric) : Option Rat :=
  n.whole?.bind fun whole =>
    addPlaces whole (max 1 (-n.weight)).toNat (n.places.drop n.wholePlaces)

/-- The number as a decimal with the digits that are shown; a half goes up. -/
def decimal? (n : Numeric) : Option Decimal96 :=
  n.magnitude?.bind fun q =>
    (fit roundHalfUp q (min n.scale greatestScale)).map fun (mantissa, scale) =>
      ⟨n.negative, mantissa, scale⟩

end Numeric

namespace Decimal96

/-- A magnitude with a sign. -/
def signed (negative : Bool) (x : Double) : Double := if negative then x.neg else x

/-- The number nearest to a natural number. -/
def ofNat (n : Nat) : Double := Double.nearest false n

/-- The fraction of a decimal without sign: whole and fractional part are rounded
    and added, and the sum is rounded to the digits of the decimal. -/
def magnitudeDouble (d : Decimal96) : Double :=
  let one := ofNat (Nat.pow 10 d.scale)
  let whole := ofNat (d.mantissa / Nat.pow 10 d.scale)
  if d.mantissa % Nat.pow 10 d.scale = 0 then whole
  else
    let part := (ofNat (d.mantissa % Nat.pow 10 d.scale)).divMagnitudes one
    let shifted := (whole.addMagnitudes part).mulMagnitudes one
    (Double.nearest false (roundHalfUp shifted.magnitude)).divMagnitudes one

/-- The fraction of a decimal.  A whole number has no negative zero. -/
def toDouble (d : Decimal96) : Double :=
  if d.scale = 0 then Double.ofInt (if d.negative then -d.mantissa else d.mantissa)
  else signed d.negative d.magnitudeDouble

end Decimal96

end RecordGraph.Postgres
