import WorkflowLint.Json.Value
import WorkflowLint.Number.Decimal
import WorkflowLint.Path
import WorkflowLint.Text.Digit

/-! Values of documents, and what a plain scalar stands for. -/
namespace WorkflowLint.Yaml

inductive Value where
  | null
  | bool (b : Bool)
  | num (n : JsonNumber)
  | str (s : String)
  | seq (items : List Value)
  | map (entries : List (Value × Value))
  | tagged (tag : String) (value : Value)
deriving Repr, Inhabited

def sameNumber : JsonNumber → JsonNumber → Bool
  | .float .nan, .float .nan => true
  | a, b => a.same b

namespace Value

mutual

def same : Value → Value → Bool
  | .null, .null => true
  | .bool a, .bool b => a == b
  | .num a, .num b => sameNumber a b
  | .str a, .str b => a == b
  | .seq a, .seq b => sameItems a b
  | .map a, .map b => a.length == b.length && sameEntries a b
  | .tagged s a, .tagged t b => s == t && same a b
  | _, _ => false

def sameItems : List Value → List Value → Bool
  | [], [] => true
  | a :: as, b :: bs => same a b && sameItems as bs
  | _, _ => false

def sameEntries : List (Value × Value) → List (Value × Value) → Bool
  | [], _ => true
  | (k, v) :: rest, others =>
    (others.any fun other => same k other.1 && same v other.2) && sameEntries rest others

end

def isText (text : String) : Value → Bool
  | .str s => s == text
  | _ => false

def untag : Value → Value
  | .tagged _ value => untag value
  | value => value

def text? (v : Value) : Option String :=
  match v.untag with
  | .str s => some s
  | _ => none

def items? (v : Value) : Option (List Value) :=
  match v.untag with
  | .seq items => some items
  | _ => none

def entries? (v : Value) : Option (List (Value × Value)) :=
  match v.untag with
  | .map entries => some entries
  | _ => none

def get? (v : Value) (key : String) : Option Value :=
  v.entries?.bind fun entries => (entries.find? fun e => e.1.isText key).map (·.2)

def item? (v : Value) (i : Nat) : Option Value :=
  match v.untag with
  | .seq items => items[i]?
  | .map entries => (entries.find? fun e => e.1.same (.num (.int i))).map (·.2)
  | _ => none

def at? (v : Value) : Path → Option Value
  | [] => some v
  | .key name :: rest => (v.get? name).bind (at? · rest)
  | .index i :: rest => (v.item? i).bind (at? · rest)

end Value

/-! What a plain scalar stands for. -/
namespace Plain

/-- A digit zero with more digits behind it is no number. -/
def hasLeadingZero (text : List Char) : Bool :=
  let digits := match text with
    | '-' :: rest | '+' :: rest => rest
    | text => text
  1 < digits.length && digits.head? = some '0' && digits.all Char.isDigit

def based? : List Char → Option (Nat × List Char)
  | '0' :: 'x' :: digits => some (16, digits)
  | '0' :: 'o' :: digits => some (8, digits)
  | '0' :: 'b' :: digits => some (2, digits)
  | _ => none

def digits? (text : List Char) : Option Nat :=
  match based? text with
  | some (base, digits) => Text.readDigits? base digits
  | none => if hasLeadingZero text then none else Text.readDigits? 10 text

def int? : List Char → Option Int
  | '+' :: rest => (digits? rest).map fun n => (n : Int)
  | '-' :: rest => (digits? rest).map fun n => -(n : Int)
  | text => (digits? text).map fun n => (n : Int)

def float? (text : List Char) : Option Binary64 :=
  let s := String.ofList text
  let unsigned := match text with
    | '+' :: rest => String.ofList rest
    | _ => s
  if [".inf", ".Inf", ".INF"].contains unsigned then some (.infinite false)
  else if ["-.inf", "-.Inf", "-.INF"].contains s then some (.infinite true)
  else if [".nan", ".NaN", ".NAN"].contains s then some .nan
  else
    let body := match text with
      | '+' :: '+' :: _ | '+' :: '-' :: _ => none
      | text => some text
    match body.bind Decimal.read? with
    | none => none
    | some d =>
      match d.toBinary64 with
      | .infinite _ => none
      | x => some x

def isNull (s : String) : Bool := ["null", "Null", "NULL", "~"].contains s

def bool? (s : String) : Option Bool :=
  if ["true", "True", "TRUE"].contains s then some true
  else if ["false", "False", "FALSE"].contains s then some false
  else none

/-- Whole numbers that no 64-bit word holds are no value at all, unless not even one of twice the
length does. -/
inductive Whole where
  | fits (n : Int)
  | tooLarge
  | no
deriving DecidableEq, Repr

def whole (text : List Char) : Whole :=
  match int? text with
  | none => .no
  | some n =>
    if -(twoTo 63 : Int) ≤ n ∧ n < twoTo 64 then .fits n
    else if -(twoTo 127 : Int) ≤ n ∧ n < twoTo 128 then .tooLarge
    else .no

def resolve? (s : String) : Option Value :=
  let text := s.toList
  if s.isEmpty || isNull s then some .null
  else
    match bool? s with
    | some b => some (.bool b)
    | none =>
      match whole text with
      | .fits n => some (.num (.int n))
      | .tooLarge => none
      | .no =>
        if hasLeadingZero text then some (.str s)
        else
          match float? text with
          | some x => some (.num (.float x))
          | none => some (.str s)

end Plain
end WorkflowLint.Yaml
