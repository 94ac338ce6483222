/-! # Numbers of JSON

A numeral is written with digits, digits after a point and an exponent of ten. Its value is a number
of double precision, found in three roundings: as many digits as fit a word of 64 bits are kept as
the coefficient, the coefficient and the power of ten are rounded, and then their product is.
Nothing else is asked of a value here than whether it is finite. -/

namespace GenericCalls.Json

/-! ### Rounding -/

/-- The quotient rounded to the nearest number; a tie goes to the even neighbour. -/
def roundDiv (n d : Nat) : Nat :=
  let q := n / d
  let twice := 2 * (n % d)
  if d < twice ∨ (twice = d ∧ q % 2 = 1) then q + 1 else q

def precision : Nat := 53

def roundBits (n : Nat) : Nat :=
  let unit := Nat.pow 2 (n.log2 + 1 - precision)
  roundDiv n unit * unit

/-- The least power of two that is too large for double precision. -/
def rangeEnd : Nat := Nat.pow 2 1024

def maxExponent : Int := 308

/-! ### Numerals -/

/-- A numeral without its sign: the digits before and after the point, and the exponent of ten. -/
structure Numeral where
  whole : List Char
  fraction : List Char
  exponent : Int
deriving Repr, Inhabited

def digitValue (d : Char) : Nat := d.toNat - '0'.toNat

def natOfDigits (ds : List Char) : Nat := ds.foldl (fun n d => 10 * n + digitValue d) 0

/-- The first number that does not fit a word. -/
def wordEnd : Nat := Nat.pow 2 64

/-- Appends digits to a number up to the first one with which it would not fit a word, and gives the
digits from there on. -/
def appendDigits : Nat → List Char → Nat × List Char
  | n, [] => (n, [])
  | n, d :: ds =>
    let next := 10 * n + digitValue d
    if next < wordEnd then appendDigits next ds else (n, d :: ds)

/-- The coefficient of a numeral and the power of ten that goes with it. A digit before the point
that did not fit the coefficient counts as a place, and one after it not at all. -/
def Numeral.scientific (x : Numeral) : Nat × Int :=
  let (n, dropped) := appendDigits 0 x.whole
  let (n, ignored) := appendDigits n x.fraction
  (n, x.exponent + dropped.length - (x.fraction.length - ignored.length : Nat))

def Numeral.isInRange (x : Numeral) : Bool :=
  let (n, e) := x.scientific
  n == 0 || decide (e < 0) ||
    decide (e ≤ maxExponent) &&
      decide (roundBits (roundBits n * roundBits (Nat.pow 10 e.toNat)) < rangeEnd)

end GenericCalls.Json
