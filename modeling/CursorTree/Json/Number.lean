/-
CursorTree.Json.Number — numbers of JSON, as written and as understood.

A number is first read as it is written: a sign, digits without a leading
zero, a fraction, an exponent.  `evaluate` then tells what it denotes.  An
integer without fraction and exponent is exact as long as it fits a word;
everything else, and minus zero, is a float.

The digits of a float are gathered into a word, as many as it holds, and
the word is scaled by a power of ten.  Powers beyond 10^308 are applied in
two or more steps.  A float that outgrows the largest one is refused.
-/
import CursorTree.Json.Fault

namespace CursorTree.Json

/-- A number as it is written. -/
structure NumberText where
  negative : Bool
  digits : List Char
  /-- The digits behind the point, none of them if there is no point. -/
  fraction : List Char
  /-- The sign (true for minus) and the digits of the exponent. -/
  exponent : Option (Bool × List Char)
  deriving DecidableEq

/-- What a number denotes. -/
inductive Number where
  /-- An integer from 0 to 2^64 - 1. -/
  | natural (n : UInt64)
  /-- The negative of an integer from 1 to 2^63. -/
  | negative (n : Nat)
  /-- Any other number, as the float it is understood as. -/
  | float (x : Float)

/-! ## As written -/

/-- One or more digits, and what follows them. -/
def readDigits : Reader (List Char)
  | [] => .error .endInValue
  | c :: cs =>
    if c.isDigit then .ok (c :: cs.takeWhile Char.isDigit, cs.dropWhile Char.isDigit)
    else .error .badNumber

/-- The digits in front of the point: a zero alone, or no zero in front. -/
def readWhole : Reader (List Char)
  | '0' :: c :: cs => if c.isDigit then .error .badNumber else .ok (['0'], c :: cs)
  | cs => readDigits cs

/-- The digits behind a point, if there is a point. -/
def readFraction : Reader (List Char)
  | '.' :: cs => readDigits cs
  | cs => .ok ([], cs)

/-- The sign and the digits of an exponent, if there is one. -/
def readExponent : Reader (Option (Bool × List Char))
  | c :: cs =>
    if c = 'e' ∨ c = 'E' then
      let (minus, cs) := match cs with
        | '+' :: cs => (false, cs)
        | '-' :: cs => (true, cs)
        | cs => (false, cs)
      (readDigits cs).map fun (ds, rest) => (some (minus, ds), rest)
    else
      .ok (none, c :: cs)
  | [] => .ok (none, [])

/-- Reads a number as it is written. -/
def readNumberText (cs : List Char) : Except Fault (NumberText × List Char) := do
  let (negative, cs) := match cs with
    | '-' :: cs => (true, cs)
    | cs => (false, cs)
  let (digits, cs) ← readWhole cs
  let (fraction, cs) ← readFraction cs
  let (exponent, cs) ← readExponent cs
  return (⟨negative, digits, fraction, exponent⟩, cs)

/-! ## As understood -/

/-- Appends digits to a number while it stays below 2^64.  Answers the
number, how many digits were taken, and how many were left. -/
def gatherDigits (n : Nat) : List Char → Nat × Nat × Nat
  | [] => (n, 0, 0)
  | d :: ds =>
    let m := 10 * n + (d.toNat - '0'.toNat)
    if m < UInt64.size then
      let (m, taken, left) := gatherDigits m ds
      (m, taken + 1, left)
    else
      (n, 0, ds.length + 1)

/-- A float times a power of ten, none beyond the largest float.  A power
whose size is above 308 is applied in steps while the float is not zero. -/
def scaleFloat (x : Float) (power : Int) : Option Float :=
  if power.natAbs ≤ 308 then
    let factor := Float.ofScientific 1 false power.natAbs
    if 0 ≤ power then
      let y := x * factor
      if y.isInf then none else some y
    else
      some (x / factor)
  else if x == 0 then some x
  else if 0 ≤ power then none
  else scaleFloat (x / Float.ofScientific 1 false 308) (power + 308)
termination_by power.natAbs
decreasing_by omega

/-- The largest exponent that is followed; beyond it a number is zero or
out of range. -/
def exponentLimit : Nat := UInt32.size / 2 - 1

/-- The float that a word of digits, a power of ten and a written exponent
denote. -/
def evaluateFloat (digits : Nat) (power : Int) (exponent : Option (Bool × List Char)) :
    Option Float :=
  let x := (UInt64.ofNat digits).toFloat
  match exponent with
  | none => scaleFloat x power
  | some (minus, ds) =>
    let e := Nat.ofDigitChars 10 ds 0
    if e ≤ exponentLimit then
      scaleFloat x (if minus then power - e else power + e)
    else if digits = 0 ∨ minus then some 0
    else none

/-- What a written number denotes. -/
def NumberText.evaluate (t : NumberText) : Except Fault Number :=
  let (whole, _, surplus) := gatherDigits 0 t.digits
  if t.fraction = [] ∧ t.exponent = none ∧ surplus = 0 ∧ t.negative = false then
    .ok (.natural (UInt64.ofNat whole))
  else if t.fraction = [] ∧ t.exponent = none ∧ surplus = 0 ∧ 0 < whole ∧ whole ≤ UInt64.size / 2 then
    .ok (.negative whole)
  else
    let (digits, taken, _) := gatherDigits whole t.fraction
    match evaluateFloat digits ((surplus : Int) - taken) t.exponent with
    | some x => .ok (.float (if t.negative then -x else x))
    | none => .error .hugeNumber

end CursorTree.Json
