/-
  Binary floating-point numbers, held as their bit patterns and computed with
  in exact arithmetic.

  * `Layout` gives the widths of a format, `binary64` and `binary32` the two in
    use; `Layout.read` says what a pattern stands for, `Layout.nearest` is the
    pattern nearest to a rational (ties to the even pattern).
  * `Double` and `Single` are the patterns of 64 and 32 bits.  Every operation
    on them is "compute exactly, then round once", so it can be evaluated and
    reasoned about without machine arithmetic.
-/
namespace RecordGraph

/-! ## Layouts -/

/-- The widths of a binary format: `fraction` stored bits of the significand
    and `exponent` bits of the biased exponent, below one sign bit. -/
structure Layout where
  fraction : Nat
  exponent : Nat

namespace Layout

/-- 64 bits: 52 of fraction, 11 of exponent. -/
def binary64 : Layout := ⟨52, 11⟩

/-- 32 bits: 23 of fraction, 8 of exponent. -/
def binary32 : Layout := ⟨23, 8⟩

variable (L : Layout)

/-- The weight of the sign bit. -/
def signWeight : Nat := Nat.pow 2 (L.fraction + L.exponent)

/-- The pattern of positive infinity; larger magnitudes are not numbers. -/
def infinity : Nat := (Nat.pow 2 L.exponent - 1) * Nat.pow 2 L.fraction

/-- The exponent of the last binary place of the smallest numbers. -/
def lowest : Int := 3 - Nat.pow 2 (L.exponent - 1) - (L.fraction + 1 : Nat)

end Layout

/-- What a bit pattern stands for: `finite` is `± significand · 2 ^ exponent`. -/
inductive Reading where
  | nan
  | infinite (negative : Bool)
  | finite (negative : Bool) (significand : Nat) (exponent : Int)
  deriving DecidableEq

/-- `2 ^ e` as a rational, for exponents of either sign. -/
def twoPow : Int → Rat
  | .ofNat n => Nat.pow 2 n
  | .negSucc n => mkRat 1 (Nat.pow 2 (n + 1))

/-- The rational nearest below that is a whole number, or the one above; of two
    equally near ones the even one. -/
def roundHalfEven (q : Rat) : Int :=
  let below := q.floor
  let rest := q - below
  if rest < 1 / 2 then below
  else if 1 / 2 < rest then below + 1
  else if below % 2 = 0 then below else below + 1

/-- The whole number nearest to `q ≥ 0`; a half goes up. -/
def roundHalfUp (q : Rat) : Int := (q + 1 / 2).floor

/-- The exponent of the highest binary place of `q > 0`. -/
def floorLog2 (q : Rat) : Int :=
  let guess : Int := (q.num.natAbs.log2 : Int) - q.den.log2
  if twoPow guess ≤ q then guess else guess - 1

namespace Layout

variable (L : Layout)

/-- What the pattern `bits` stands for. -/
def read (bits : Nat) : Reading :=
  let negative := decide (L.signWeight ≤ bits)
  let magnitude := bits % L.signWeight
  if L.infinity < magnitude then .nan
  else if magnitude = L.infinity then .infinite negative
  else if magnitude < Nat.pow 2 L.fraction then .finite negative magnitude L.lowest
  else
    .finite negative (Nat.pow 2 L.fraction + magnitude % Nat.pow 2 L.fraction)
      (L.lowest + (magnitude / Nat.pow 2 L.fraction - 1 : Nat))

/-- The pattern nearest to `q ≥ 0`, ties to the even pattern, infinity from the
    first value that rounds beyond the largest number.  The patterns of the
    positive numbers are in the order of the numbers, so a carry out of the
    significand is a carry into the exponent. -/
def nearestMagnitude (q : Rat) : Nat :=
  if q ≤ 0 then 0
  else
    let place := max L.lowest (floorLog2 q - L.fraction)
    let significand := (roundHalfEven (q / twoPow place)).toNat
    min L.infinity ((place - L.lowest).toNat * Nat.pow 2 L.fraction + significand)

/-- The pattern nearest to `± q`, for `q ≥ 0`. -/
def nearest (negative : Bool) (q : Rat) : Nat :=
  (if negative then L.signWeight else 0) + L.nearestMagnitude q

/-- The same number in another layout: rounded if it is finite; of what is not a
    number the sign and the leading fraction bits stay, and it is made quiet. -/
def recode (K : Layout) (bits : Nat) : Nat :=
  match L.read bits with
  | .finite negative m e => K.nearest negative (m * twoPow e)
  | .infinite negative => (if negative then K.signWeight else 0) + K.infinity
  | .nan =>
    let kept := bits % Nat.pow 2 L.fraction * Nat.pow 2 K.fraction / Nat.pow 2 L.fraction
    (if L.signWeight ≤ bits then K.signWeight else 0) + K.infinity +
      (kept ||| Nat.pow 2 (K.fraction - 1))

end Layout

/-! ## The two widths -/

/-- A number of 64 bits. -/
structure Double where
  bits : UInt64
  deriving DecidableEq

/-- A number of 32 bits. -/
structure Single where
  bits : UInt32
  deriving DecidableEq

namespace Double

/-- What the number stands for. -/
def read (x : Double) : Reading := Layout.binary64.read x.bits.toNat

/-- The number nearest to `± q`, for `q ≥ 0`. -/
def nearest (negative : Bool) (q : Rat) : Double :=
  ⟨.ofNat (Layout.binary64.nearest negative q)⟩

def zero : Double := ⟨0⟩

/-- The number nearest to an integer. -/
def ofInt (i : Int) : Double := nearest (i < 0) i.natAbs

def isNaN (x : Double) : Bool := x.read = .nan

/-- The number has the sign bit set. -/
def isNegative (x : Double) : Bool := Layout.binary64.signWeight ≤ x.bits.toNat

def isInfinite (x : Double) : Bool :=
  match x.read with
  | .infinite _ => true
  | _ => false

def isZero (x : Double) : Bool := x.bits.toNat % Layout.binary64.signWeight = 0

/-- The same magnitude with the other sign. -/
def neg (x : Double) : Double := ⟨x.bits ^^^ 0x8000000000000000⟩

/-- The magnitude of a finite number; `0` for the others. -/
def magnitude (x : Double) : Rat :=
  match x.read with
  | .finite _ m e => m * twoPow e
  | _ => 0

/-- Equality of numbers: nothing equals what is not a number, and the two zeros
    are equal. -/
def eqv (x y : Double) : Bool :=
  !x.isNaN && !y.isNaN && (x.bits == y.bits || (x.isZero && y.isZero))

/-! Sum, product and quotient of finite numbers without sign. -/

def addMagnitudes (x y : Double) : Double := nearest false (x.magnitude + y.magnitude)

def mulMagnitudes (x y : Double) : Double := nearest false (x.magnitude * y.magnitude)

def divMagnitudes (x y : Double) : Double := nearest false (x.magnitude / y.magnitude)

/-- The number of 32 bits nearest to it. -/
def narrow (x : Double) : Single := ⟨.ofNat (Layout.binary64.recode .binary32 x.bits.toNat)⟩

end Double

namespace Single

/-- The same number in 64 bits. -/
def widen (x : Single) : Double := ⟨.ofNat (Layout.binary32.recode .binary64 x.bits.toNat)⟩

/-- The number nearest to an integer. -/
def ofInt (i : Int) : Single := ⟨.ofNat (Layout.binary32.nearest (i < 0) i.natAbs)⟩

def zero : Single := ⟨0⟩

end Single

end RecordGraph
