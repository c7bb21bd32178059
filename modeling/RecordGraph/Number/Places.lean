/-
  Numbers written in a fixed count of places of a base, the highest first.

  * `places base width n` are the lowest `width` places of `n`, `ofPlaces base`
    reads places back; `ofPlaces_places` ties the two.
  * Hexadecimal text (`toHex`, `ofHex?`) and big-endian bytes (`toBigEndian`,
    `ofBigEndian`) are the bases 16 and 256.
-/
namespace RecordGraph

/-- The lowest `width` places of `n` in `base`, the highest first. -/
def places (base : Nat) : (width : Nat) → Nat → List Nat
  | 0, _ => []
  | width + 1, n => places base width (n / base) ++ [n % base]

/-- The number with the given places, the highest first. -/
def ofPlaces (base : Nat) (ds : List Nat) : Nat :=
  ds.foldl (fun n d => n * base + d) 0

theorem length_places (base width n : Nat) : (places base width n).length = width := by
  induction width generalizing n with
  | zero => rfl
  | succ width ih => simp [places, ih]

/-- Reading the written places gives the number back, up to the places that were
    not written. -/
theorem ofPlaces_places (base width n : Nat) :
    ofPlaces base (places base width n) = n % Nat.pow base width := by
  induction width generalizing n with
  | zero => simp [places, ofPlaces, Nat.mod_one]
  | succ width ih =>
    have h := ih (n / base)
    simp only [ofPlaces] at h
    simp only [places, ofPlaces, List.foldl_append, List.foldl_cons, List.foldl_nil, h]
    change n / base % base ^ width * base + n % base = n % base ^ (width + 1)
    rw [Nat.pow_succ', Nat.mod_mul, Nat.mul_comm, Nat.add_comm]

/-! ## Hexadecimal text -/

/-- The lower-case digit of a value below 16. -/
def hexDigit (n : Nat) : Char :=
  if n < 10 then Char.ofNat ('0'.toNat + n) else Char.ofNat ('a'.toNat + (n - 10))

/-- The value of a hexadecimal digit of either case. -/
def hexValue? (c : Char) : Option Nat :=
  if '0' ≤ c ∧ c ≤ '9' then some (c.toNat - '0'.toNat)
  else if 'a' ≤ c ∧ c ≤ 'f' then some (c.toNat - 'a'.toNat + 10)
  else if 'A' ≤ c ∧ c ≤ 'F' then some (c.toNat - 'A'.toNat + 10)
  else none

/-- The lowest `width` hexadecimal digits of `n`, in lower case. -/
def toHex (width n : Nat) : List Char := (places 16 width n).map hexDigit

/-- The number with the given hexadecimal digits, of either case. -/
def ofHex? (cs : List Char) : Option Nat := (cs.mapM hexValue?).map (ofPlaces 16)

/-! ## Big-endian bytes -/

/-- The lowest `width` bytes of `n`, the highest first. -/
def toBigEndian (width n : Nat) : List UInt8 := (places 256 width n).map UInt8.ofNat

/-- The number with the given bytes, the highest first. -/
def ofBigEndian (bs : List UInt8) : Nat := ofPlaces 256 (bs.map UInt8.toNat)

theorem length_toBigEndian (width n : Nat) : (toBigEndian width n).length = width := by
  simp [toBigEndian, length_places]

/-- An integer as its two's complement form in `width` bytes. -/
def intToBigEndian (width : Nat) (i : Int) : List UInt8 :=
  toBigEndian width (i % Nat.pow 256 width).toNat

/-- The integer whose two's complement form the bytes are. -/
def intOfBigEndian (bs : List UInt8) : Int :=
  (ofBigEndian bs : Int).bmod (Nat.pow 256 bs.length)

/-! ## Hexadecimal bytes -/

/-- Two digits a byte. -/
def bytesToHex (bs : List UInt8) : List Char := bs.flatMap fun b => toHex 2 b.toNat

def bytesOfHex? : List Char → Option (List UInt8)
  | [] => some []
  | [_] => none
  | a :: b :: rest => do
    let high ← hexValue? a
    let low ← hexValue? b
    return .ofNat (high * 16 + low) :: (← bytesOfHex? rest)

end RecordGraph
