import LibraryContract.Binary64.Basic

/-!
# Numbers of a JSON text

A number without fraction and exponent is an integer as long as it fits into sixty-four bits;
every other number, and `-0`, is a double. `Number.ofText?` reads the characters of one number.

The digits of a double are not rounded once as a whole. The leading digits that fit into an
unsigned word form the significand, the digits after them only move the decimal exponent, and
the significand is then multiplied or divided by a power of ten, with a rounding at each step
(`scaleByTen?`). A double that overflows is no value but may stand where nothing reads it.
-/

namespace LibraryContract

namespace Json

/-- The value of a number in a JSON text. -/
inductive Number
  /-- An integer from zero to the largest unsigned word. -/
  | natural (n : UInt64)
  /-- An integer below zero that fits into a signed word. -/
  | negative (n : Int64)
  | real (x : Binary64)
  /-- A number too large for a double. -/
  | overflow
deriving DecidableEq, Repr

/-- The written parts of a number. -/
structure Numeral where
  negative : Bool
  whole : List Nat
  /-- The digits after the point, when there is one. -/
  fraction : Option (List Nat)
  /-- The exponent of ten, when there is one. -/
  exponent : Option Int
deriving DecidableEq, Repr

namespace Numeral

def digit (c : Char) : Nat := c.toNat - '0'.toNat

/-- The digits at the front of `cs` and what follows them. -/
def digits (cs : List Char) : List Nat × List Char :=
  ((cs.takeWhile Char.isDigit).map digit, cs.dropWhile Char.isDigit)

/-- The natural number with these decimal digits. -/
def ofDigits (ds : List Nat) : Nat := ds.foldl (fun n d => 10 * n + d) 0

/-- Reads a sign and the characters after it. -/
def sign (cs : List Char) : Bool × List Char :=
  match cs with
  | '-' :: rest => (true, rest)
  | cs => (false, cs)

/-- Reads the whole part: a single zero, or digits that do not start with one. -/
def whole? (cs : List Char) : Option (List Nat × List Char) :=
  match digits cs with
  | ([], _) => none
  | (0 :: _ :: _, _) => none
  | (ds, rest) => some (ds, rest)

/-- Reads the fraction, which has at least one digit after its point. -/
def fraction? (cs : List Char) : Option (Option (List Nat) × List Char) :=
  match cs with
  | '.' :: rest =>
    match digits rest with
    | ([], _) => none
    | (ds, rest) => some (some ds, rest)
  | cs => some (none, cs)

/-- Reads the digits of an exponent. -/
def exponentDigits? (negative : Bool) (cs : List Char) : Option (Option Int × List Char) :=
  match digits cs with
  | ([], _) => none
  | (ds, rest) =>
    let e : Int := ofDigits ds
    some (some (if negative then -e else e), rest)

/-- Reads the exponent: a letter, an optional sign, at least one digit. -/
def exponent? (cs : List Char) : Option (Option Int × List Char) :=
  match cs with
  | 'e' :: rest | 'E' :: rest =>
    match rest with
    | '+' :: rest => exponentDigits? false rest
    | '-' :: rest => exponentDigits? true rest
    | rest => exponentDigits? false rest
  | cs => some (none, cs)

/-- How much of a number has been read. -/
inductive Phase
  | sign
  /-- A whole part that is a single zero. -/
  | zero
  | whole
  /-- The point, which needs a digit after it. -/
  | point
  | fraction
  /-- The letter of the exponent. -/
  | mark
  /-- The sign of the exponent, which needs a digit after it. -/
  | markSign
  | exponent
deriving DecidableEq, Repr

namespace Phase

/-- The phase `p` when the next character is a digit. -/
def onDigit (p : Phase) (c : Char) : Option Phase := if c.isDigit then some p else none

/-- The phase after the letter of an exponent, when that comes next. -/
def onMark (c : Char) : Option Phase := if c == 'e' || c == 'E' then some mark else none

/-- The phase after a point or the letter of an exponent, when one of them comes next. -/
def onTail (c : Char) : Option Phase := if c == '.' then some point else onMark c

/-- The phase after one character more; `none` when the character cannot belong to the number. -/
def next? (p : Phase) (c : Char) : Option Phase :=
  match p with
  | sign => if c == '0' then some zero else onDigit whole c
  | zero => onTail c
  | whole => (onDigit whole c).or (onTail c)
  | point => onDigit fraction c
  | fraction => (onDigit fraction c).or (onMark c)
  | mark => if c == '+' || c == '-' then some markSign else onDigit exponent c
  | markSign => onDigit exponent c
  | exponent => onDigit exponent c

/-- The phase after the first character of a number; `none` when no number starts so. -/
def first? (c : Char) : Option Phase := if c == '-' then some sign else sign.next? c

end Phase

/-- Reads the characters of one number, all of them. -/
def ofText? (cs : List Char) : Option Numeral := do
  let (negative, cs) := sign cs
  let (whole, cs) ← whole? cs
  let (fraction, cs) ← fraction? cs
  let (exponent, cs) ← exponent? cs
  match cs with
  | [] => some ⟨negative, whole, fraction, exponent⟩
  | _ :: _ => none

end Numeral

namespace Number

/-- The significand after the leading digits that keep it within an unsigned word, and the
number of those digits. -/
def absorb (significand : Nat) : List Nat → Nat × Nat
  | [] => (significand, 0)
  | d :: ds =>
    if 10 * significand + d < UInt64.size then
      let (s, taken) := absorb (10 * significand + d) ds
      (s, taken + 1)
    else (significand, 0)

/-- The greatest power of ten below the largest double. -/
def greatestPower : Nat := 308

/-- The double nearest to a power of ten. -/
def powerOfTen (n : Nat) : Binary64 := Binary64.ofNat (Binary64.tenTo n)

/-- A magnitude divided by ten to the `n`, at most `10 ^ 308` at a time; zero stays zero. -/
def divideByTen (x : Binary64) (n : Nat) : Binary64 :=
  if n ≤ greatestPower then x.divMagnitude (powerOfTen n)
  else if x.isZero then x
  else divideByTen (x.divMagnitude (powerOfTen greatestPower)) (n - greatestPower)
termination_by n
decreasing_by simp only [greatestPower] at *; omega

/-- A magnitude times ten to the `n`, unless it overflows. -/
def multiplyByTen? (x : Binary64) (n : Nat) : Option Binary64 :=
  if n ≤ greatestPower then
    let y := x.mulMagnitude (powerOfTen n)
    if y.isInfinite then none else some y
  else if x.isZero then some x
  else none

/-- A significand times ten to the `exponent`, unless it overflows. -/
def scaleByTen? (significand : Nat) (exponent : Int) : Option Binary64 :=
  let x := Binary64.ofNat significand
  if 0 ≤ exponent then multiplyByTen? x exponent.toNat
  else some (divideByTen x exponent.natAbs)

/-- The double that a numeral denotes. -/
def realOf (n : Numeral) (significand : Nat) (exponent : Int) : Number :=
  match scaleByTen? significand exponent with
  | some x => .real (if n.negative then x.neg else x)
  | none => .overflow

/-- The integer of a significand that has taken up all digits of the numeral. -/
def integerOf (n : Numeral) (significand : Nat) : Number :=
  if n.negative then
    if 0 < significand ∧ significand ≤ 0x8000000000000000 then
      .negative (Int64.ofInt (-(significand : Int)))
    else .real (Binary64.ofNat significand).neg
  else .natural significand.toUInt64

def ofNumeral (n : Numeral) : Number :=
  let (s, taken) := absorb 0 n.whole
  let skipped := n.whole.length - taken
  match n.fraction, n.exponent with
  | none, none => if skipped = 0 then integerOf n s else realOf n s skipped
  | fraction, exponent =>
    let (s, places) := absorb s (fraction.getD [])
    realOf n s (skipped - places + exponent.getD 0)

/-- The value of the characters of one number. -/
def ofText? (cs : List Char) : Option Number := (Numeral.ofText? cs).map ofNumeral

end Number

end Json

end LibraryContract
