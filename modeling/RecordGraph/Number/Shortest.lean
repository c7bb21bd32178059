/-
  The shortest decimal that reads back as a given binary number, and the
  layouts in which it is written.

  * `Decimal` is `digits · 10 ^ exponent`; `shortest` finds, on the coarsest
    decimal grid with a point in the interval of rationals that round to the
    number, the point nearest to it.
  * `Decimal.positional` never uses an exponent; `Decimal.scientific` does
    outside a window of magnitudes.
-/
import RecordGraph.Number.Binary

namespace RecordGraph

/-- `digits · 10 ^ exponent`. -/
structure Decimal where
  digits : Nat
  exponent : Int
  deriving DecidableEq

/-- `10 ^ e` as a rational, for exponents of either sign. -/
def tenPow : Int → Rat
  | .ofNat n => Nat.pow 10 n
  | .negSucc n => mkRat 1 (Nat.pow 10 (n + 1))

/-- The digits of a natural number in base ten. -/
def decimalDigits (n : Nat) : List Char := Nat.toDigits 10 n

/-! ## The interval of a number -/

/-- The rationals that round to `significand · 2 ^ exponent`; the ends belong to
    it when the significand is even. -/
structure Basin where
  low : Rat
  high : Rat
  closed : Bool

/-- The basin of a positive number.  Below a power of two the next number is
    only half as far away, except at the lowest exponent. -/
def Basin.of (L : Layout) (significand : Nat) (exponent : Int) : Basin :=
  let unit := twoPow exponent
  let below := if significand = Nat.pow 2 L.fraction ∧ L.lowest < exponent then unit / 2 else unit
  ⟨significand * unit - below / 2, significand * unit + unit / 2, significand % 2 = 0⟩

def Basin.holds (b : Basin) (q : Rat) : Bool :=
  if b.closed then b.low ≤ q && q ≤ b.high else b.low < q && q < b.high

/-! ## The search -/

/-- Which of two equally near decimals is taken. -/
inductive Tie where
  | up
  | toEven
  deriving DecidableEq

/-- The number of decimal places before the point of `q > 0`. -/
def decimalPoint (q : Rat) : Int :=
  let guess : Int := (decimalDigits q.num.natAbs).length - (decimalDigits q.den).length
  if tenPow guess ≤ q then guess + 1 else guess

/-- The neighbour of `q` on the grid of multiples of `10 ^ place` that lies in
    the basin, the nearer one if both do. -/
def Basin.onGrid (b : Basin) (tie : Tie) (q : Rat) (place : Int) : Option Nat :=
  let scaled := q / tenPow place
  let below := scaled.floor.toNat
  let downFits := b.holds (below * tenPow place)
  let upFits := b.holds ((below + 1 : Nat) * tenPow place)
  match downFits, upFits with
  | false, false => none
  | true, false => some below
  | false, true => some (below + 1)
  | true, true =>
    let rest := scaled - below
    if rest < 1 / 2 then some below
    else if 1 / 2 < rest then some (below + 1)
    else match tie with
      | .up => some (below + 1)
      | .toEven => some (if below % 2 = 0 then below else below + 1)

/-- Tries ever finer grids, `steps` of them. -/
def Basin.search (b : Basin) (tie : Tie) (q : Rat) : (steps : Nat) → (place : Int) → Decimal
  | 0, place => ⟨(roundHalfEven (q / tenPow place)).toNat, place⟩
  | steps + 1, place =>
    match b.onGrid tie q place with
    | some digits => ⟨digits, place⟩
    | none => b.search tie q steps (place - 1)

/-- Moves the factors of ten from the digits to the exponent, at most `n`. -/
def Decimal.strip : Nat → Decimal → Decimal
  | 0, d => d
  | n + 1, d =>
    if d.digits ≠ 0 ∧ d.digits % 10 = 0 then strip n ⟨d.digits / 10, d.exponent + 1⟩ else d

/-- The shortest decimal that reads back as `significand · 2 ^ exponent`, for a
    positive significand.  Seventeen digits are enough for every layout here. -/
def shortest (L : Layout) (tie : Tie) (significand : Nat) (exponent : Int) : Decimal :=
  let q : Rat := significand * twoPow exponent
  ((Basin.of L significand exponent).search tie q 17 (decimalPoint q - 1)).strip 400

/-! ## Layouts -/

namespace Decimal

/-- Digits with a point in them and no exponent; a whole number has no point. -/
def positional (d : Decimal) : List Char :=
  let digits := decimalDigits d.digits
  match d.exponent with
  | .ofNat n => digits ++ List.replicate n '0'
  | .negSucc k =>
    let places := k + 1
    let whole := digits.length - places
    if places < digits.length then digits.take whole ++ '.' :: digits.drop whole
    else '0' :: '.' :: List.replicate (places - digits.length) '0' ++ digits

/-- One digit before the point, and an exponent with its sign. -/
def scientific (d : Decimal) : List Char :=
  let digits := decimalDigits d.digits
  let power := d.exponent + (digits.length - 1 : Nat)
  digits.take 1 ++ (if digits.length = 1 then [] else '.' :: digits.drop 1) ++
    'e' :: (if power < 0 then '-' else '+') :: decimalDigits power.natAbs

/-- A decimal that is always seen to be a fraction: `.0` follows a whole number.
    Positional while the point falls within sixteen digits after the first and
    at most five places before it, scientific elsewhere. -/
def fractional (d : Decimal) : List Char :=
  let point := d.exponent + (decimalDigits d.digits).length
  if -5 < point ∧ point ≤ 16 then
    if 0 ≤ d.exponent then d.positional ++ ['.', '0'] else d.positional
  else d.scientific

end Decimal

/-- The text of a number: shortest digits, never an exponent, no point in a whole
    number. -/
def Double.text (x : Double) : String :=
  let sign (negative : Bool) := if negative then "-" else ""
  match x.read with
  | .nan => "NaN"
  | .infinite negative => sign negative ++ "inf"
  | .finite negative 0 _ => sign negative ++ "0"
  | .finite negative m e =>
    sign negative ++ String.ofList (shortest .binary64 .up m e).positional

end RecordGraph
