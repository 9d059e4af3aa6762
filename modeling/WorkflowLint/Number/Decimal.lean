import WorkflowLint.Number.Binary64

/-! Decimal literals: a sign, digits with a point among or before or behind them, an exponent. -/
namespace WorkflowLint

structure Decimal where
  negative : Bool
  digits : Nat
  exponent : Int
deriving DecidableEq, Repr

namespace Decimal

def digitValue (c : Char) : Nat := c.toNat - '0'.toNat

def ofDigits (digits : List Char) : Nat :=
  digits.foldl (fun n c => 10 * n + digitValue c) 0

def takeSign : List Char → Bool × List Char
  | '-' :: rest => (true, rest)
  | '+' :: rest => (false, rest)
  | rest => (false, rest)

def readInt? (text : List Char) : Option Int :=
  let (negative, digits) := takeSign text
  if digits.isEmpty || !digits.all Char.isDigit then none
  else some (if negative then -(ofDigits digits : Int) else ofDigits digits)

def readExponent? : List Char → Option Int
  | [] => some 0
  | c :: rest => if c = 'e' ∨ c = 'E' then readInt? rest else none

/-- A whole literal, with at least one digit on a side of the point. -/
def read? (text : List Char) : Option Decimal :=
  let (negative, rest) := takeSign text
  let before := rest.takeWhile Char.isDigit
  let rest := rest.dropWhile Char.isDigit
  let (after, rest) := match rest with
    | '.' :: rest => (rest.takeWhile Char.isDigit, rest.dropWhile Char.isDigit)
    | rest => ([], rest)
  if before.isEmpty && after.isEmpty then none
  else (readExponent? rest).map fun exponent =>
    ⟨negative, ofDigits (before ++ after), exponent - after.length⟩

/-- The characters of a number. The words `inf` and `nan` have others. -/
def isNumberChar (c : Char) : Bool :=
  c.isDigit || c = '.' || c = 'e' || c = 'E' || c = '+' || c = '-'

def toBinary64 (d : Decimal) : Binary64 := .ofDecimal d.negative d.digits d.exponent

end Decimal
end WorkflowLint
