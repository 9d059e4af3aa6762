import WorkflowLint.Number.Binary64

/-! The fewest decimal digits that read back as a given number. -/
namespace WorkflowLint

/-- `0.d₁d₂… * 10 ^ point`. The last digit is not zero. -/
structure Digits where
  digits : List Char
  point : Int
deriving DecidableEq, Repr

namespace Shortest

def reaches (units : Nat) (k : Int) : Bool :=
  if 0 ≤ k then tenTo k.toNat * Binary64.one ≤ units
  else Binary64.one ≤ units * tenTo (-k).toNat

def point (units : Nat) : Int :=
  let guess := ((units.log2 : Int) - 1074) * 30103 / 100000
  match [guess + 2, guess + 1, guess].find? (reaches units) with
  | some k => k + 1
  | none => guess

/-- The numbers that round to the given one, in quarters of a unit. Its ends belong to it iff the
significand is even; below a power of two the neighbour is only half as far away. -/
structure Interval where
  low : Nat
  high : Nat
  closed : Bool

def interval (units : Nat) : Interval :=
  let shift := units.log2 - 52
  let significand := units / twoTo shift
  let gap := if significand = twoTo 52 && 0 < shift then twoTo shift else 2 * twoTo shift
  ⟨4 * units - gap, 4 * units + 2 * twoTo shift, significand % 2 = 0⟩

/-- The neighbour of the number on the grid of `count` digits that reads back, if one of the two
does: the nearer one, and of two as near the upper one if `tieUp`, else the even one. -/
def onGrid? (tieUp : Bool) (units count : Nat) : Option Nat :=
  let exponent := point units - count
  let step := if 0 ≤ exponent then tenTo exponent.toNat * (4 * Binary64.one) else 4 * Binary64.one
  let scale := if 0 ≤ exponent then 1 else tenTo (-exponent).toNat
  let range := interval units
  let value := 4 * units * scale
  let below := value / step
  let above := below + 1
  let within (a b : Nat) : Bool := if range.closed then a ≤ b else a < b
  let down := value - below * step
  let up := above * step - value
  if down = 0 then some below
  else match within (range.low * scale) (below * step),
      within (above * step) (range.high * scale) with
    | true, false => some below
    | false, true => some above
    | false, false => none
    | true, true =>
      if down < up then some below
      else if up < down then some above
      else if tieUp || below % 2 = 1 then some above else some below

def Digits.ofNat (n : Nat) (exponent : Int) : Digits :=
  let digits := Nat.toDigits 10 n
  ⟨(digits.reverse.dropWhile (· = '0')).reverse, exponent + digits.length⟩

def digits (tieUp : Bool) (units : Nat) : Digits :=
  let hit := (List.range 17).findSome? fun i =>
    (onGrid? tieUp units (i + 1)).map fun n => Digits.ofNat n (point units - (i + 1 : Nat))
  hit.getD ⟨['0'], 1⟩

end Shortest
end WorkflowLint
