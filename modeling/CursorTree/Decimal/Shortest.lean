/-
CursorTree.Decimal.Shortest — the shortest decimal that reads back as a
given float.

A finite positive float is m · 2^q for a natural number m.  A decimal
d · 10^k reads back as it when it lies between the midpoints towards the
neighbouring floats, ends included when m is even.  On the grid of the
decimals with a given exponent k only the two points next to the float can
be the nearest, so it is enough to try these two on ever finer grids
(`onGrid?`); the first grid with a hit gives the fewest digits, and of two
hits the nearer one counts.

All comparisons are made in natural numbers.
-/

namespace CursorTree

/-- A decimal d · 10^k. -/
structure Decimal where
  d : Nat
  k : Int
  deriving DecidableEq

namespace Decimal

/-- A positive binary float m · 2^q with its neighbours: `closeBelow` says
that the float below is only half a step away. -/
structure Binary where
  m : Nat
  q : Int
  closeBelow : Bool
  deriving DecidableEq

/-- The numerator of a · 2^b · 10^c over a common denominator. -/
def scaledUp (base : Nat) (a : Nat) (e : Int) : Nat := a * Nat.pow base e.toNat

/-- The numerators of four times the float and of one decimal step, over
one denominator: the pair (x, g) with 4 · m · 2^q = x · s and
4 · 10^k = 4 · g · s for some positive s. -/
def aligned (b : Binary) (k : Int) : Nat × Nat :=
  (scaledUp 10 (scaledUp 2 (4 * b.m) b.q) (-k), scaledUp 10 (scaledUp 2 1 (-b.q)) k)

/-- The decimal with exponent k that is nearest to a float among those that
read back as it; of two that are equally near the one with the even digit. -/
def onGrid? (b : Binary) (k : Int) : Option Nat :=
  let (x, g) := aligned b k
  let unit := (aligned { b with m := 1 } k).1 / 4
  let above := x + 2 * unit
  let below := if b.closeBelow then x - unit else x - 2 * unit
  let hits (d : Nat) : Bool :=
    let y := 4 * d * g
    if b.m % 2 = 0 then below ≤ y && y ≤ above else below < y && y < above
  let lo := x / (4 * g)
  let hi := lo + 1
  let gapLo := x - 4 * lo * g
  let gapHi := 4 * hi * g - x
  let lower := decide (gapLo < gapHi) || (decide (gapLo = gapHi) && lo % 2 == 0)
  match hits lo && lo != 0, hits hi with
  | true, true => some (if lower then lo else hi)
  | true, false => some lo
  | false, true => some hi
  | false, false => none

/-- The first hit on so many ever finer grids, the coarsest having the
exponent k. -/
def refine (b : Binary) : Nat → Int → Option Decimal
  | 0, _ => none
  | grids + 1, k =>
    match onGrid? b k with
    | some d => some ⟨d, k⟩
    | none => refine b grids (k - 1)

/-- A power of ten above every float. -/
def topExponent : Int := 309

/-- The shortest decimal that reads back as a float. -/
def shortest (b : Binary) : Decimal :=
  (refine b 700 topExponent).getD ⟨0, 0⟩

/-- The binary form of the size of a finite float that is not zero. -/
def binaryOf (x : Float) : Binary :=
  let bits : Nat := x.toBits.toNat
  let fraction : Nat := bits % Nat.pow 2 52
  let exponent : Nat := bits / Nat.pow 2 52 % Nat.pow 2 11
  if exponent = 0 then ⟨fraction, -1074, false⟩
  else ⟨Nat.pow 2 52 + fraction, (exponent : Int) - 1075, fraction == 0 && exponent != 1⟩

/-- True when the sign bit of a float is set. -/
def isNegative (x : Float) : Bool := Nat.pow 2 63 ≤ x.toBits.toNat

/-! ## Writing -/

/-- How a decimal is written. -/
structure Style where
  /-- The least power of ten of a first digit that is written positionally. -/
  lowest : Int
  /-- The first power of ten of a first digit that is not. -/
  beyond : Int
  /-- What stands in front of a positive exponent. -/
  plus : String

/-- Digits with a point behind the first `whole` of them, filled up with
zeros on either side. -/
def positional (digits : List Char) (whole : Int) : List Char :=
  if whole ≤ 0 then
    ['0', '.'] ++ List.replicate (-whole).toNat '0' ++ digits
  else if digits.length ≤ whole.toNat then
    digits ++ List.replicate (whole.toNat - digits.length) '0' ++ ['.', '0']
  else
    digits.take whole.toNat ++ '.' :: digits.drop whole.toNat

/-- A decimal as written in a style. -/
def write (n : Style) (x : Decimal) : List Char :=
  let digits := Nat.toDigits 10 x.d
  let lead := x.k + digits.length - 1
  if n.lowest ≤ lead ∧ lead < n.beyond then
    positional digits (lead + 1)
  else
    let mantissa := match digits with
      | [] => []
      | [d] => [d]
      | d :: ds => d :: '.' :: ds
    let sign := if 0 ≤ lead then n.plus.toList else ['-']
    mantissa ++ 'e' :: sign ++ Nat.toDigits 10 lead.natAbs

/-- A finite float as its shortest decimal in a style. -/
def writeFloat (n : Style) (x : Float) : String :=
  let size := if x == 0 then ['0', '.', '0'] else write n (shortest (binaryOf x))
  String.ofList (if isNegative x then '-' :: size else size)

end Decimal

end CursorTree
