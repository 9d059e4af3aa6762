import WorkflowLint.Expr.Error
import WorkflowLint.Number.Decimal
import WorkflowLint.Text.Bytes
import WorkflowLint.Text.Digit

/-! Cutting an expression into tokens. The longest token that begins at a character is taken. -/
namespace WorkflowLint.Expr

def isLayout (c : Char) : Bool := c = ' ' || c = '\t' || c = '\n' || c = '\r'

def isHexDigit (c : Char) : Bool := (Text.hexValue? c).isSome

def isNameStart (c : Char) : Bool := c.isAlpha || c = '_'

def isNameChar (c : Char) : Bool := c.isAlphanum || c = '_' || c = '-'

def run (p : Char → Bool) (text : List Char) : Nat := (text.takeWhile p).length

def fractionLength : List Char → Nat
  | '.' :: rest => if run Char.isDigit rest = 0 then 0 else 1 + run Char.isDigit rest
  | _ => 0

def signLength : List Char → Nat
  | '+' :: _ | '-' :: _ => 1
  | _ => 0

def exponentLength : List Char → Nat
  | [] => 0
  | e :: rest =>
    if e = 'e' ∨ e = 'E' then
      let sign := signLength rest
      let digits := run Char.isDigit (rest.drop sign)
      if digits = 0 then 0 else 1 + sign + digits
    else 0

def decimalLength (text : List Char) : Nat :=
  let whole := run Char.isDigit text
  let fraction := fractionLength (text.drop whole)
  whole + fraction + exponentLength (text.drop (whole + fraction))

/-- Only numbers below 2⁶³ can be written with hexadecimal digits. -/
def hexToken? (digits : List Char) : Option Token :=
  (Text.readDigits? 16 digits).bind fun n =>
    if n < twoTo 63 then some (.number (.ofInt n)) else none

def decimalToken? (text : List Char) : Option Token :=
  (Decimal.read? text).map fun d => .number d.toBinary64

/-- The contents of a string literal behind its first quote, and its length with the last quote;
`none` if it has no end. Two quotes in a row stand for one. -/
def stringBody : List Char → Option (List Char × Nat)
  | [] => none
  | '\'' :: '\'' :: rest => (stringBody rest).map fun (s, n) => ('\'' :: s, n + 2)
  | '\'' :: _ => some ([], 1)
  | c :: rest => (stringBody rest).map fun (s, n) => (c :: s, n + 1)

def wordToken (name : List Char) : Token :=
  if name = "true".toList then .true
  else if name = "false".toList then .false
  else if name = "null".toList then .null
  else .ident (String.ofList name)

def markToken? : Char → Option Token
  | '<' => some .lt
  | '>' => some .gt
  | '!' => some .not
  | '(' => some .openParen
  | ')' => some .closeParen
  | '[' => some .openBracket
  | ']' => some .closeBracket
  | '.' => some .dot
  | ',' => some .comma
  | _ => none

def pairToken? : Char → Char → Option Token
  | '=', '=' => some .eq
  | '!', '=' => some .ne
  | '<', '=' => some .le
  | '>', '=' => some .ge
  | '&', '&' => some .and
  | '|', '|' => some .or
  | _, _ => none

/-! The functions that follow give the token that begins with a character, if there is one, and how
many characters of the rest belong to it. -/

def nameFrom (c : Char) (rest : List Char) : Option Token × Nat :=
  let n := run isNameChar rest
  (some (wordToken (c :: rest.take n)), n)

def stringFrom (rest : List Char) : Option Token × Nat :=
  match stringBody rest with
  | some (s, n) => (some (.string (String.ofList s)), n)
  | none => (none, rest.length)

def decimalFrom (c : Char) (rest : List Char) : Option Token × Nat :=
  let n := decimalLength rest
  (decimalToken? (c :: rest.take n), n)

def hexLength (c : Char) : List Char → Nat
  | x :: digits => if c = '0' && (x = 'x' || x = 'X') then run isHexDigit digits else 0
  | [] => 0

def numberFrom (c : Char) (rest : List Char) : Option Token × Nat :=
  let hex := hexLength c rest
  if 0 < hex then (hexToken? ((rest.drop 1).take hex), 1 + hex) else decimalFrom c rest

def markFrom (c : Char) (rest : List Char) : Option Token × Nat :=
  match rest with
  | d :: _ => match pairToken? c d with
    | some t => (some t, 1)
    | none => (markToken? c, 0)
  | [] => (markToken? c, 0)

/-- The token that begins with `c`, and how many characters of `rest` belong to it. Without a
token these are the characters to blame. -/
def nextToken (c : Char) (rest : List Char) : Option Token × Nat :=
  if isNameStart c then nameFrom c rest
  else if c = '\'' then stringFrom rest
  else if c.isDigit then numberFrom c rest
  else if c = '-' && 0 < run Char.isDigit rest then decimalFrom c rest
  else markFrom c rest

def lexFrom (offset : Nat) : List Char → Except ParseError (List Lexeme)
  | [] => .ok []
  | c :: rest =>
    if isLayout c then lexFrom (offset + c.utf8Size) rest
    else
      let found := nextToken c rest
      let word := c :: rest.take found.2
      let stop := offset + Text.byteLength word
      match found.1 with
      | none => .error ⟨.unreadable (String.ofList word), ⟨offset, stop⟩⟩
      | some t => (lexFrom stop (rest.drop found.2)).map (⟨t, ⟨offset, stop⟩⟩ :: ·)
termination_by text => text.length
decreasing_by
  · simp only [List.length_cons]
    omega
  · simp only [List.length_drop, List.length_cons]
    omega

def lex (text : List Char) : Except ParseError (List Lexeme) := lexFrom 0 text

end WorkflowLint.Expr
