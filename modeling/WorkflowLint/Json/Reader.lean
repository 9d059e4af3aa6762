import WorkflowLint.Json.Value
import WorkflowLint.Number.Decimal
import WorkflowLint.Text.Digit

/-! Reading JSON. The text is cut into lexemes by a machine that takes one character at a time,
and the lexemes are assembled by a machine with a stack of open arrays and objects. -/
namespace WorkflowLint

namespace JsonNumber

def wordMax : Nat := twoTo 64 - 1

def appendDigits (n : Nat) : List Char → Nat × List Char
  | [] => (n, [])
  | d :: ds =>
    let more := 10 * n + Decimal.digitValue d
    if more ≤ wordMax then appendDigits more ds else (n, d :: ds)

/-- `x / 10 ^ k`, by one division for each 308 powers of ten. -/
def scaleDown (x : Binary64) (k : Nat) : Nat → Binary64
  | 0 => x
  | rounds + 1 =>
    if k ≤ 308 then x.div (.ofDecimal false 1 k)
    else if x = .zero then x
    else scaleDown (x.div (.ofDecimal false 1 308)) (k - 308) rounds

def scale? (n : Nat) (exponent : Int) : Option Binary64 :=
  let x := Binary64.ofInt n
  if exponent < 0 then some (scaleDown x exponent.natAbs 4)
  else if 308 < exponent then if n = 0 then some x else none
  else
    let y := x.mul (.ofDecimal false 1 exponent)
    if y.isFinite then some y else none

structure Parts where
  whole : List Char
  fraction : Option (List Char)
  exponent : Option (List Char)

def parts? (text : List Char) : Option Parts :=
  let whole := text.takeWhile Char.isDigit
  let rest := text.dropWhile Char.isDigit
  let (fraction, rest) := match rest with
    | '.' :: rest => (some (rest.takeWhile Char.isDigit), rest.dropWhile Char.isDigit)
    | rest => (none, rest)
  let leading := match whole with
    | [] => false
    | '0' :: _ :: _ => false
    | _ => true
  if !leading || fraction == some [] then none
  else match rest with
    | [] => some ⟨whole, fraction, none⟩
    | c :: rest => if c = 'e' ∨ c = 'E' then some ⟨whole, fraction, some rest⟩ else none

/-- The number that the parts denote. Digits that no longer fit a word only count for their
place. -/
def Parts.value? (parts : Parts) (negative : Bool) : Option JsonNumber :=
  let (n, excess) := appendDigits 0 parts.whole
  let float (x : Binary64) : JsonNumber := .float (if negative then x.neg else x)
  match parts.fraction, parts.exponent with
  | none, none =>
    if !excess.isEmpty then (scale? n excess.length).map float
    else if !negative then some (.int n)
    else if n = 0 ∨ twoTo 63 < n then some (float (.ofInt n))
    else some (.int (-n))
  | fraction, exponent =>
    let digits := fraction.getD []
    let (n, rest) := appendDigits n digits
    let place : Int := excess.length - (digits.length - rest.length : Nat)
    match exponent with
    | none => (scale? n place).map float
    | some text => (Decimal.readInt? text).bind fun e =>
      if twoTo 31 ≤ e.natAbs then if n ≠ 0 ∧ 0 < e then none else some (float .zero)
      else (scale? n (place + e)).map float

def read? (text : List Char) : Option JsonNumber :=
  match text with
  | '-' :: rest => (parts? rest).bind (·.value? true)
  | rest => (parts? rest).bind (·.value? false)

end JsonNumber

namespace Json

inductive Lexeme where
  | open_ (object : Bool)
  | close (object : Bool)
  | comma
  | colon
  | value (v : Json)

/-- Where the lexer stands: between lexemes, in a word, or in a string, with what it holds so
far, last character first. An escaped half of a surrogate pair waits for the other half. -/
inductive LexState where
  | between
  | word (soFar : List Char)
  | text (soFar : List Char)
  | escape (soFar : List Char) (high : Option Nat)
  | hex (soFar : List Char) (high : Option Nat) (left : Nat) (value : Nat)
  | half (soFar : List Char) (high : Nat)

def isSpace (c : Char) : Bool := c = ' ' || c = '\n' || c = '\t' || c = '\r'

def isMark (c : Char) : Bool :=
  c = '[' || c = ']' || c = '\x7b' || c = '\x7d' || c = ',' || c = ':' || c = '"'

def ofWord? (word : List Char) : Option Json :=
  if word = "null".toList then some .null
  else if word = "true".toList then some (.bool true)
  else if word = "false".toList then some (.bool false)
  else (JsonNumber.read? word).map .num

def escape? : Char → Option Char
  | '"' => some '"'
  | '\\' => some '\\'
  | '/' => some '/'
  | 'b' => some (Char.ofNat 8)
  | 'f' => some (Char.ofNat 12)
  | 'n' => some '\n'
  | 'r' => some '\r'
  | 't' => some '\t'
  | _ => none

def unit? (soFar : List Char) (high : Option Nat) (value : Nat) : Option LexState :=
  match high with
  | some h =>
    if 0xDC00 ≤ value ∧ value ≤ 0xDFFF then
      some (.text (Char.ofNat (0x10000 + (h - 0xD800) * 0x400 + (value - 0xDC00)) :: soFar))
    else none
  | none =>
    if 0xD800 ≤ value ∧ value ≤ 0xDBFF then some (.half soFar value)
    else if 0xDC00 ≤ value ∧ value ≤ 0xDFFF then none
    else some (.text (Char.ofNat value :: soFar))

def mark? (c : Char) : Option (List Lexeme × LexState) :=
  if c = '"' then some ([], .text [])
  else if c = '[' then some ([.open_ false], .between)
  else if c = ']' then some ([.close false], .between)
  else if c = '\x7b' then some ([.open_ true], .between)
  else if c = '\x7d' then some ([.close true], .between)
  else if c = ',' then some ([.comma], .between)
  else if c = ':' then some ([.colon], .between)
  else none

def lexStep? (state : LexState) (c : Char) : Option (List Lexeme × LexState) :=
  match state with
  | .between =>
    if isSpace c then some ([], .between)
    else if isMark c then mark? c
    else some ([], .word [c])
  | .word soFar =>
    if isSpace c then (ofWord? soFar.reverse).map fun v => ([.value v], .between)
    else if isMark c then do
      let v ← ofWord? soFar.reverse
      let (more, next) ← mark? c
      some (.value v :: more, next)
    else some ([], .word (c :: soFar))
  | .text soFar =>
    if c = '"' then some ([.value (.str (String.ofList soFar.reverse))], .between)
    else if c = '\\' then some ([], .escape soFar none)
    else if c.toNat < 0x20 then none
    else some ([], .text (c :: soFar))
  | .escape soFar high =>
    if c = 'u' then some ([], .hex soFar high 4 0)
    else if high.isSome then none
    else (escape? c).map fun e => ([], .text (e :: soFar))
  | .hex soFar high left value =>
    (Text.hexValue? c).bind fun d =>
      let value := 16 * value + d
      if left ≤ 1 then (unit? soFar high value).map fun next => ([], next)
      else some ([], .hex soFar high (left - 1) value)
  | .half soFar high => if c = '\\' then some ([], .escape soFar (some high)) else none

def lex? (done : List Lexeme) (state : LexState) : List Char → Option (List Lexeme)
  | [] => match state with
    | .between => some done.reverse
    | .word soFar => (ofWord? soFar.reverse).map fun v => (.value v :: done).reverse
    | _ => none
  | c :: cs =>
    match lexStep? state c with
    | none => none
    | some (more, next) => lex? (more.reverse ++ done) next cs

/-- An array or object whose end has not come yet, the newest part first. An object may hold a
name that waits for its value. -/
inductive Frame where
  | array (items : List Json)
  | object (fields : List (String × Json)) (name : Option String)

inductive Want where
  | value
  | valueOrClose
  | name
  | nameOrClose
  | colon
  | commaOrClose
  | nothing

def attach (v : Json) : List Frame → Option Json × List Frame × Want
  | [] => (some v, [], .nothing)
  | .array items :: rest => (none, .array (v :: items) :: rest, .commaOrClose)
  | .object fields name :: rest =>
    (none, .object ((name.getD "", v) :: fields) none :: rest, .commaOrClose)

def maxDepth : Nat := 127

def assembleStep? (stack : List Frame) (want : Want) (lexeme : Lexeme) :
    Option (Option Json × List Frame × Want) :=
  match want, lexeme with
  | .value, .value v | .valueOrClose, .value v => some (attach v stack)
  | .value, .open_ object | .valueOrClose, .open_ object =>
    if stack.length < maxDepth then
      if object then some (none, .object [] none :: stack, .nameOrClose)
      else some (none, .array [] :: stack, .valueOrClose)
    else none
  | .name, .value (.str s) | .nameOrClose, .value (.str s) =>
    match stack with
    | .object fields _ :: rest => some (none, .object fields (some s) :: rest, .colon)
    | _ => none
  | .colon, .colon => some (none, stack, .value)
  | .commaOrClose, .comma =>
    match stack with
    | .array _ :: _ => some (none, stack, .value)
    | .object .. :: _ => some (none, stack, .name)
    | [] => none
  | .valueOrClose, .close object | .nameOrClose, .close object | .commaOrClose, .close object =>
    match stack, object with
    | .array items :: rest, false => some (attach (.arr items.reverse) rest)
    | .object fields _ :: rest, true => some (attach (ofFields fields.reverse) rest)
    | _, _ => none
  | _, _ => none

def assemble? (result : Option Json) (stack : List Frame) (want : Want) :
    List Lexeme → Option Json
  | [] => result
  | lexeme :: rest => do
    let (result, stack, want) ← assembleStep? stack want lexeme
    assemble? result stack want rest

def read? (text : String) : Option Json := do
  let lexemes ← lex? [] .between text.toList
  assemble? none [] .value lexemes

end Json
end WorkflowLint
