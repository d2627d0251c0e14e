import LibraryContract.Binary64.Basic

/-!
# The shortest decimal of a double

The decimal with the fewest digits that rounds back to a double, and among those the one nearest
to it (`Binary64.shortest`). For each number of digits, only the two neighbours of the value on
the grid of decimals of that length need a test. All tests are exact, on natural numbers.
-/

namespace LibraryContract

/-- The number `0.d₁d₂d₃…` times ten to the `point`. -/
structure Decimal where
  digits : List Nat
  point : Int
deriving DecidableEq, Repr

namespace Binary64

/-- The magnitudes around a finite double that round to it: the double and the two ends, over one
denominator, and whether the ends themselves count. -/
structure Neighbourhood where
  low : Nat
  value : Nat
  high : Nat
  denominator : Nat
  closed : Bool
deriving Repr

/-- The neighbourhood of a finite double. Below a power of two doubles lie twice as close. -/
def neighbourhood (x : Binary64) : Neighbourhood :=
  let m := 4 * x.significand
  let gap := if x.significand = fieldWeight ∧ 1 < x.exponentField then 1 else 2
  let e := x.exponent - 2
  let up := twoTo e.toNat
  ⟨(m - gap) * up, m * up, (m + 2) * up, twoTo (-e).toNat, decide (x.significand % 2 = 0)⟩

namespace Neighbourhood

/-- Whether `numerator / denominator` rounds to the double. -/
def holds (n : Neighbourhood) (numerator denominator : Nat) : Bool :=
  let p := numerator * n.denominator
  if n.closed then decide (n.low * denominator ≤ p ∧ p ≤ n.high * denominator)
  else decide (n.low * denominator < p ∧ p < n.high * denominator)

/-- The position of the decimal point: the least power of ten above the value. -/
def point (n : Neighbourhood) : Int :=
  if n.denominator ≤ n.value then (Nat.toDigits 10 (n.value / n.denominator)).length
  else
    -((((List.range 400).find? fun j =>
      decide (n.denominator ≤ n.value * tenTo (j + 1))).getD 0 : Nat) : Int)

/-- The unit of the grid with `count` digits, as numerator and denominator. -/
def unit (n : Neighbourhood) (count : Nat) : Nat × Nat :=
  let e := n.point - count
  (tenTo e.toNat, tenTo (-e).toNat)

/-- The decimal with `count` digits nearest to the double that rounds to it, as a number of units;
of two equally near ones the greater. -/
def nearest? (n : Neighbourhood) (count : Nat) : Option Nat :=
  let (up, down) := n.unit count
  let below := n.value * down / (n.denominator * up)
  let above := below + 1
  match n.holds (below * up) down, n.holds (above * up) down with
  | true, true =>
    if 2 * n.value * down < (below + above) * up * n.denominator then some below else some above
  | true, false => some below
  | false, true => some above
  | false, false => none

end Neighbourhood

def digitsOf (n : Nat) : List Nat := (Nat.toDigits 10 n).map fun c => c.toNat - '0'.toNat

/-- Digits without the zeros at their end. -/
def trimZeros (ds : List Nat) : List Nat := (ds.reverse.dropWhile fun d => decide (d = 0)).reverse

/-- The shortest decimal that rounds to the magnitude of a finite double; seventeen digits always
suffice. Zero has no digits. -/
def shortest (x : Binary64) : Decimal :=
  if x.isZero then ⟨[], 0⟩
  else
    let n := x.neighbourhood
    let found := (List.range 17).findSome? fun i => (n.nearest? (i + 1)).map fun d => (i + 1, d)
    match found with
    | none => ⟨[], 0⟩
    | some (count, units) =>
      let ds := digitsOf units
      ⟨trimZeros ds, n.point + ((ds.length : Int) - count)⟩

def digitsText (ds : List Nat) : String := String.join (ds.map fun d => toString d)

def zerosText (n : Nat) : String := String.ofList (List.replicate n '0')

namespace Decimal

/-- A decimal written out, with at least one digit on either side of the point. -/
def positional (d : Decimal) : String :=
  let places := d.digits.length
  if d.point ≤ 0 then
    "0." ++ if places = 0 then "0" else zerosText (-d.point).toNat ++ digitsText d.digits
  else
    let whole := d.point.toNat
    if places ≤ whole then digitsText d.digits ++ zerosText (whole - places) ++ ".0"
    else digitsText (d.digits.take whole) ++ "." ++ digitsText (d.digits.drop whole)

/-- A decimal with one digit before the point and an exponent. -/
def scientific (d : Decimal) : String :=
  let tail := digitsText (d.digits.drop 1)
  digitsText (d.digits.take 1) ++ (if tail.isEmpty then "" else "." ++ tail) ++ "e" ++
    toString (d.point - 1)

end Decimal

/-- A double as text: written out from `0.0001` up to, but not including, ten to the sixteenth, and
with an exponent beyond. -/
def text (x : Binary64) : String :=
  let sign := if x.isNegative then "-" else ""
  let d := x.shortest
  if x.isZero || decide (-3 ≤ d.point ∧ d.point ≤ 16) then sign ++ Decimal.positional d
  else sign ++ Decimal.scientific d

end Binary64

end LibraryContract
