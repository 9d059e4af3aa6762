import WorkflowLint.Number.Shortest

/-! How a format writes numbers. -/
namespace WorkflowLint

/-- The decisions of a format. With the point behind the `point`-th digit, a number is written
out iff `lowest ≤ point ≤ highest`, and with an exponent otherwise. -/
structure Layout where
  lowest : Option Int
  highest : Option Int
  pointZero : Bool
  plus : Bool
  /-- Of two shortest texts as near to the number the upper one is taken, else the even one. -/
  tieUp : Bool
  infinity : String
  nan : String

namespace Layout

def isPositional (layout : Layout) (point : Int) : Bool :=
  (layout.lowest.all (· ≤ point)) && (layout.highest.all (point ≤ ·))

def zeros (n : Nat) : List Char := List.replicate n '0'

def positional (layout : Layout) (d : Digits) : List Char :=
  let count := d.digits.length
  if d.point ≤ 0 then ['0', '.'] ++ zeros (-d.point).toNat ++ d.digits
  else if d.point < count then
    d.digits.take d.point.toNat ++ ['.'] ++ d.digits.drop d.point.toNat
  else
    d.digits ++ zeros (d.point.toNat - count) ++ (if layout.pointZero then ['.', '0'] else [])

def scientific (layout : Layout) (d : Digits) : List Char :=
  let mantissa := match d.digits with
    | c :: rest@(_ :: _) => c :: '.' :: rest
    | digits => digits
  let exponent := d.point - 1
  let sign := if exponent < 0 then ['-'] else if layout.plus then ['+'] else []
  mantissa ++ ['e'] ++ sign ++ Nat.toDigits 10 exponent.natAbs

def magnitude (layout : Layout) (units : Nat) : List Char :=
  if units = 0 then if layout.pointZero then ['0', '.', '0'] else ['0']
  else
    let d := Shortest.digits layout.tieUp units
    if layout.isPositional d.point then layout.positional d else layout.scientific d

def render (layout : Layout) : Binary64 → String
  | .finite negative units =>
    String.ofList ((if negative then ['-'] else []) ++ layout.magnitude units)
  | .infinite negative => (if negative then "-" else "") ++ layout.infinity
  | .nan => layout.nan

end Layout
end WorkflowLint
