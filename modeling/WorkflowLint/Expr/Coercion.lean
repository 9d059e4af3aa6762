import WorkflowLint.Json.Value
import WorkflowLint.Number.Decimal
import WorkflowLint.Number.Layout
import WorkflowLint.Text.Blank
import WorkflowLint.Text.Digit
import WorkflowLint.Text.Lowercase

/-! Values taken as truth values, numbers and texts, and their comparison. -/
namespace WorkflowLint

namespace Binary64

def displayLayout : Layout where
  lowest := none
  highest := none
  pointZero := false
  plus := false
  tieUp := true
  infinity := "Infinity"
  nan := "NaN"

/-- Whole numbers below this are exact in every representation. -/
def wholeBound : Nat := tenTo 15

def isSmallWhole (x : Binary64) : Bool := x.isWhole && x.isBelow wholeBound

def display (x : Binary64) : String :=
  if x.isSmallWhole then toString x.whole else displayLayout.render x

/-- A number as a value: whole if it is a small whole number, and null if it is not finite. -/
def toJson (x : Binary64) : Json :=
  if x.isSmallWhole then .num (.int x.whole)
  else if x.isFinite then .num (.float x)
  else .null

def readHex (text : List Char) : Binary64 :=
  let (negative, digits) := Decimal.takeSign text
  match Text.readDigits? 16 digits with
  | none => .nan
  | some value =>
    let n : Int := if negative then -value else value
    if -(twoTo 63 : Int) ≤ n ∧ n < twoTo 63 then .ofInt n else .nan

def ofText (text : List Char) : Binary64 :=
  let text := Text.trim text
  if text.isEmpty then .zero
  else if text = "Infinity".toList ∨ text = "+Infinity".toList then .infinite false
  else if text = "-Infinity".toList then .infinite true
  else match text with
    | '0' :: 'x' :: hex | '0' :: 'X' :: hex => readHex hex
    | _ =>
      if text.all Decimal.isNumberChar then
        match Decimal.read? text with
        | some d => d.toBinary64
        | none => .nan
      else .nan

end Binary64

namespace Json

def isTruthy : Json → Bool
  | .null => false
  | .bool b => b
  | .num n => n.toBinary64.compare? .zero != some .eq && !n.toBinary64.isNaN
  | .str s => s != ""
  | .arr _ | .obj _ => true

def toNumber : Json → Binary64
  | .null => .zero
  | .bool b => if b then .ofInt 1 else .zero
  | .num n => n.toBinary64
  | .str s => .ofText s.toList
  | .arr _ | .obj _ => .nan

def display : Json → String
  | .null => ""
  | .bool b => if b then "true" else "false"
  | .num n => n.toBinary64.display
  | .str s => s
  | .arr _ => "Array"
  | .obj _ => "Object"

/-- `==`: texts regardless of case, arrays and objects part by part, and values of different
kinds as numbers. -/
def looseEq (a b : Json) : Bool :=
  match a, b with
  | .str x, .str y => Text.lowercase x == Text.lowercase y
  | .num x, .num y => x.toBinary64.same y.toBinary64
  | .null, .null => true
  | .bool x, .bool y => x == y
  | .arr x, .arr y => (Json.arr x).same (.arr y)
  | .obj x, .obj y => (Json.obj x).same (.obj y)
  | a, b => a.toNumber.same b.toNumber

def looseCompare? (a b : Json) : Option Ordering :=
  match a, b with
  | .str x, .str y => some (compare (Text.lowercase x) (Text.lowercase y))
  | a, b => a.toNumber.compare? b.toNumber

end Json
end WorkflowLint
