import WorkflowLint.Number.Power

/-! Floating point numbers of 64 bits, exactly: no arithmetic of the machine is involved, so
that order and rounding can be reasoned about. -/
namespace WorkflowLint

/-- A finite number is a whole multiple of 2⁻¹⁰⁷⁴, the smallest positive one, and has a sign of
its own, so that there are two zeros. -/
inductive Binary64 where
  | finite (negative : Bool) (units : Nat)
  | infinite (negative : Bool)
  | nan
deriving DecidableEq, Repr, Inhabited

namespace Binary64

def one : Nat := twoTo 1074

def zero : Binary64 := .finite false 0

def limit : Nat := twoTo 2098

def roundDiv (num den : Nat) : Nat :=
  let q := num / den
  let r := num % den
  if 2 * r < den then q
  else if den < 2 * r then q + 1
  else q + q % 2

def roundUnits (num den : Nat) : Nat :=
  let shift := (num / den).log2 - 52
  roundDiv num (den * twoTo shift) * twoTo shift

def ofUnits (negative : Bool) (num den : Nat) : Binary64 :=
  let units := roundUnits num den
  if units < limit then .finite negative units else .infinite negative

def ofInt (n : Int) : Binary64 := ofUnits (n < 0) (n.natAbs * one) 1

/-- The number nearest to `digits * 10 ^ exponent`. Far from all finite numbers the power need
not be computed. -/
def ofDecimal (negative : Bool) (digits : Nat) (exponent : Int) : Binary64 :=
  let size := exponent + (Nat.toDigits 10 digits).length
  if digits = 0 then .finite negative 0
  else if 310 < size then .infinite negative
  else if size < -326 then .finite negative 0
  else if 0 ≤ exponent then ofUnits negative (digits * tenTo exponent.toNat * one) 1
  else ofUnits negative (digits * one) (tenTo (-exponent).toNat)

def mul : Binary64 → Binary64 → Binary64
  | .finite m a, .finite n b => ofUnits (m != n) (a * b) one
  | .finite m a, .infinite n => if a = 0 then .nan else .infinite (m != n)
  | .infinite m, .finite n b => if b = 0 then .nan else .infinite (m != n)
  | .infinite m, .infinite n => .infinite (m != n)
  | _, _ => .nan

def div : Binary64 → Binary64 → Binary64
  | .finite m a, .finite n b =>
    if b = 0 then if a = 0 then .nan else .infinite (m != n)
    else ofUnits (m != n) (a * one) b
  | .finite m _, .infinite n => .finite (m != n) 0
  | .infinite m, .finite n _ => .infinite (m != n)
  | _, _ => .nan

def neg : Binary64 → Binary64
  | .finite n a => .finite (!n) a
  | .infinite n => .infinite (!n)
  | .nan => .nan

def isNaN : Binary64 → Bool
  | .nan => true
  | _ => false

theorem isNaN_ofUnits (negative : Bool) (num den : Nat) :
    (ofUnits negative num den).isNaN = false := by
  simp only [ofUnits]
  split <;> rfl

theorem isNaN_ofInt (n : Int) : (ofInt n).isNaN = false := isNaN_ofUnits ..

theorem isNaN_ofDecimal (negative : Bool) (digits : Nat) (exponent : Int) :
    (ofDecimal negative digits exponent).isNaN = false := by
  simp only [ofDecimal]
  split
  next => rfl
  next =>
    split
    next => rfl
    next =>
      split
      next => rfl
      next => split <;> exact isNaN_ofUnits ..

def isFinite : Binary64 → Bool
  | .finite .. => true
  | _ => false

def signed (negative : Bool) (units : Nat) : Int := if negative then -(units : Int) else units

def compare? : Binary64 → Binary64 → Option Ordering
  | .finite m a, .finite n b => some (compare (signed m a) (signed n b))
  | .finite .., .infinite n => some (if n then .gt else .lt)
  | .infinite m, .finite .. => some (if m then .lt else .gt)
  | .infinite m, .infinite n =>
    some (if m = n then .eq else if m then .lt else .gt)
  | _, _ => none

/-- Equality of numbers, which is not identity: the zeros are equal, and what is not a number is
not equal to itself. -/
def same (a b : Binary64) : Bool := compare? a b == some .eq

def isWhole : Binary64 → Bool
  | .finite _ a => a % one == 0
  | _ => false

def whole : Binary64 → Int
  | .finite n a => signed n (a / one)
  | _ => 0

def isBelow (x : Binary64) (bound : Nat) : Bool :=
  match x with
  | .finite _ a => a < bound * one
  | _ => false

def toBits : Binary64 → Nat
  | .finite n a =>
    let shift := a.log2 - 52
    (if n then twoTo 63 else 0) + (if a < twoTo 52 then a else shift * twoTo 52 + a / twoTo shift)
  | .infinite n => (if n then twoTo 63 else 0) + 2047 * twoTo 52
  | .nan => 4095 * twoTo 51

def ofBits (bits : Nat) : Binary64 :=
  let negative := bits / twoTo 63 % 2 == 1
  let exponent := bits / twoTo 52 % 2048
  let fraction := bits % twoTo 52
  if exponent = 2047 then if fraction = 0 then .infinite negative else .nan
  else if exponent = 0 then .finite negative fraction
  else .finite negative ((twoTo 52 + fraction) * twoTo (exponent - 1))

end Binary64
end WorkflowLint
