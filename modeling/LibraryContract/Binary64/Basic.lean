/-!
# Double-precision numbers

A float literal is kept as its sixty-four bits: a sign, eleven bits of exponent and fifty-two of
fraction. Whatever arithmetic the reader of numbers needs is exact arithmetic on natural numbers
followed by one rounding to the nearest double, half to even (`Binary64.ofRatio`).
-/

namespace LibraryContract

/-- A double-precision number, as its bits. -/
structure Binary64 where
  bits : UInt64
deriving DecidableEq, Repr

namespace Binary64

def twoTo (n : Nat) : Nat := Nat.pow 2 n

def tenTo (n : Nat) : Nat := Nat.pow 10 n

/-- The weight of the sign bit, two to the sixty-third. -/
def signWeight : Nat := 0x8000000000000000

/-- The weight of the lowest bit of the exponent field, two to the fifty-second. A significand of
fifty-three bits is at least this, and less than twice as much. -/
def fieldWeight : Nat := 0x10000000000000

/-- The bits of an infinite magnitude. -/
def infinityBits : Nat := 0x7ff0000000000000

/-- The double whose bits are the natural number `n`. -/
def ofBits (n : Nat) : Binary64 := ⟨n.toUInt64⟩

def zero : Binary64 := ofBits 0

def infinity : Binary64 := ofBits infinityBits

/-- The bits without the sign. -/
def magnitude (x : Binary64) : Nat := x.bits.toNat % signWeight

def isNegative (x : Binary64) : Bool := decide (signWeight ≤ x.bits.toNat)

/-- Whether the number is zero, of either sign. -/
def isZero (x : Binary64) : Bool := decide (x.magnitude = 0)

/-- Whether the number is infinite, of either sign. -/
def isInfinite (x : Binary64) : Bool := decide (x.magnitude = infinityBits)

/-- Whether the number is neither infinite nor undefined. -/
def isFinite (x : Binary64) : Bool := decide (x.magnitude < infinityBits)

/-- The number with the opposite sign. -/
def neg (x : Binary64) : Binary64 := ⟨x.bits ^^^ 0x8000000000000000⟩

def exponentField (x : Binary64) : Nat := x.magnitude / fieldWeight

/-- The significand as a natural number; the magnitude is this times two to `exponent`. -/
def significand (x : Binary64) : Nat :=
  if x.exponentField = 0 then x.magnitude % fieldWeight else x.magnitude % fieldWeight + fieldWeight

/-- The power of two by which `significand` is scaled. -/
def exponent (x : Binary64) : Int :=
  if x.exponentField = 0 then -1074 else (x.exponentField : Int) - 1075

/-- The magnitude of a finite number as numerator and denominator. -/
def ratio (x : Binary64) : Nat × Nat :=
  if 0 ≤ x.exponent then (x.significand * twoTo x.exponent.toNat, 1)
  else (x.significand, twoTo (-x.exponent).toNat)

/-- A quotient rounded to the nearest natural number, half to even. -/
def roundHalfEven (numerator denominator : Nat) : Nat :=
  let q := numerator / denominator
  let r := numerator % denominator
  if 2 * r < denominator then q
  else if denominator < 2 * r then q + 1
  else if q % 2 = 0 then q else q + 1

/-- A quotient divided by a power of two, as a numerator and a denominator. -/
def scale (numerator denominator : Nat) (exponent : Int) : Nat × Nat :=
  if 0 ≤ exponent then (numerator, denominator * twoTo exponent.toNat)
  else (numerator * twoTo (-exponent).toNat, denominator)

/-- The power of two at which a positive quotient has a significand of fifty-three bits, or the
least one a double can have. -/
def leadingExponent (numerator denominator : Nat) : Int :=
  let guess : Int := (numerator.log2 : Int) - denominator.log2 - 52
  let (n, d) := scale numerator denominator guess
  max (-1074) (if n < d * fieldWeight then guess - 1 else guess)

/-- The double nearest to a quotient of natural numbers, half to even; infinite when the
quotient lies beyond the largest double by half a unit or more. The significand is added to the
exponent field as a number, so a significand that rounds up to the next power of two carries
into the field by itself. -/
def ofRatio (numerator denominator : Nat) : Binary64 :=
  if numerator = 0 then zero
  else
    let e := leadingExponent numerator denominator
    let (n, d) := scale numerator denominator e
    ofBits (min infinityBits ((e + 1074).toNat * fieldWeight + roundHalfEven n d))

/-- The double nearest to a natural number. -/
def ofNat (n : Nat) : Binary64 := ofRatio n 1

/-- The double nearest to an integer. -/
def ofInt (n : Int) : Binary64 := if 0 ≤ n then ofNat n.toNat else (ofNat n.natAbs).neg

/-- The product of two magnitudes, rounded to the nearest double. -/
def mulMagnitude (x y : Binary64) : Binary64 :=
  ofRatio (x.ratio.1 * y.ratio.1) (x.ratio.2 * y.ratio.2)

/-- The quotient of two magnitudes, rounded to the nearest double. -/
def divMagnitude (x y : Binary64) : Binary64 :=
  ofRatio (x.ratio.1 * y.ratio.2) (x.ratio.2 * y.ratio.1)

end Binary64

end LibraryContract
