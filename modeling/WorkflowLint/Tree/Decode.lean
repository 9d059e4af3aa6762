import WorkflowLint.Text.Blank
import WorkflowLint.Text.Bytes
import WorkflowLint.Text.Digit
import WorkflowLint.Text.Lines

/-! What the source of a scalar stands for. -/
namespace WorkflowLint.Tree

def joinWith (separator : Char) : List (List Char) → List Char
  | [] => []
  | [line] => line
  | line :: rest => line ++ separator :: joinWith separator rest

def foldLines (text : List Char) : List Char :=
  if text.contains '\n' then Text.trim (joinWith ' ' ((Text.lines text).map Text.trim)) else text

def unquote (quote : Char) (raw : List Char) : List Char :=
  match raw with
  | [] => raw
  | c :: rest => if c = quote && rest.getLast? = some quote then rest.dropLast else raw

def mergeQuotes : List Char → List Char
  | '\'' :: '\'' :: rest => '\'' :: mergeQuotes rest
  | c :: rest => c :: mergeQuotes rest
  | [] => []

def decodeSingle (raw : List Char) : List Char := foldLines (mergeQuotes (unquote '\'' raw))

def hexChar? (digits : List Char) : Option Char :=
  let digits := match digits with
    | '+' :: rest => rest
    | digits => digits
  (Text.readDigits? 16 digits).bind fun n => if n.isValidChar then some (Char.ofNat n) else none

def hexLength : Char → Nat
  | 'x' => 2
  | 'u' => 4
  | 'U' => 8
  | _ => 0

def escapedChar : Char → Char
  | 'n' => '\n'
  | 't' => '\t'
  | 'r' => '\r'
  | '0' => Char.ofNat 0
  | c => c

/-- Whether a character stands for itself, behind a backslash, or in a number of which `left` more
characters are to come. -/
inductive Escape where
  | no
  | begun
  | number (left : Nat) (digits : List Char)
deriving DecidableEq, Repr

def unescape : Escape → List Char → List Char
  | .no, [] => []
  | .begun, [] => ['\\']
  | .number _ digits, [] => (hexChar? digits).toList
  | .no, c :: rest => if c = '\\' then unescape .begun rest else c :: unescape .no rest
  | .begun, c :: rest =>
    if 0 < hexLength c then unescape (.number (hexLength c) []) rest
    else escapedChar c :: unescape .no rest
  | .number left digits, c :: rest =>
    if left ≤ 1 then (hexChar? (digits ++ [c])).toList ++ unescape .no rest
    else unescape (.number (left - 1) (digits ++ [c])) rest

def decodeDouble (raw : List Char) : List Char := unescape .no (foldLines (unquote '"' raw))

def indentOf (line : List Char) : Nat := Text.byteLength (line.takeWhile Text.isBlank)

/-- A line without its first bytes; nothing is left of one that is shorter, or if the cut would
be inside of a character. -/
def dropBytes : Nat → List Char → List Char
  | 0, line => line
  | _, [] => []
  | n + 1, c :: rest => if c.utf8Size ≤ n + 1 then dropBytes (n + 1 - c.utf8Size) rest else []

def unindent (lines : List (List Char)) : List (List Char) :=
  let indents := (lines.filter fun line => !Text.isBlankText line).map indentOf
  let indent := indents.min?.getD 0
  lines.map (dropBytes indent)

def fold : List (List Char) → List Char
  | [] => []
  | line :: rest => line ++ rest.flatMap fun line => (if line.isEmpty then '\n' else ' ') :: line

def dropFeeds (text : List Char) : List Char := (text.reverse.dropWhile (· = '\n')).reverse

/-- A block scalar: the first line says whether lines are folded, and what becomes of the line
feeds at the end. -/
def decodeBlock (raw : List Char) : List Char :=
  let lines := Text.lines raw
  let header := lines.headD []
  let body := unindent lines.tail
  let text :=
    if (Text.trimStart header).head? = some '>' then fold body else joinWith '\n' body
  if header.contains '-' then dropFeeds text
  else if header.contains '+' then text ++ ['\n']
  else dropFeeds text ++ ['\n']

end WorkflowLint.Tree
