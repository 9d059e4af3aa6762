import WorkflowLint.Json.Value
import WorkflowLint.Number.Layout
import WorkflowLint.Text.Quoted

/-! Writing JSON. -/
namespace WorkflowLint

/-- Fractions are written out from 1e-5 up to 1e16, keep `.0` and put a sign on every exponent. -/
def JsonNumber.layout : Layout where
  lowest := some (-4)
  highest := some 16
  pointZero := true
  plus := true
  tieUp := false
  infinity := "null"
  nan := "null"

def JsonNumber.render : JsonNumber → String
  | .int n => toString n
  | .float x => JsonNumber.layout.render x

namespace Json

def escapeChar (c : Char) : List Char :=
  if c = '"' then ['\\', '"']
  else if c = '\\' then ['\\', '\\']
  else if c = '\n' then ['\\', 'n']
  else if c = '\r' then ['\\', 'r']
  else if c = '\t' then ['\\', 't']
  else if c.toNat = 8 then ['\\', 'b']
  else if c.toNat = 12 then ['\\', 'f']
  else if c.toNat < 0x20 then
    let digits := Text.hexDigits c.toNat
    ['\\', 'u'] ++ List.replicate (4 - digits.length) '0' ++ digits
  else [c]

def quote (s : String) : String := String.ofList (['"'] ++ s.toList.flatMap escapeChar ++ ['"'])

def newline (depth : Nat) : String := String.ofList ('\n' :: List.replicate (2 * depth) ' ')

mutual

/-- Two spaces for each level, and empty arrays and objects without a line of their own. -/
def pretty (depth : Nat) : Json → String
  | .null => "null"
  | .bool b => if b then "true" else "false"
  | .num n => n.render
  | .str s => quote s
  | .arr [] => "[]"
  | .arr (v :: vs) =>
    "[" ++ newline (depth + 1) ++ pretty (depth + 1) v ++ prettyItems depth vs ++ newline depth ++
      "]"
  | .obj [] => "\x7b\x7d"
  | .obj ((n, v) :: fs) =>
    "\x7b" ++ newline (depth + 1) ++ quote n ++ ": " ++ pretty (depth + 1) v ++
      prettyFields depth fs ++ newline depth ++ "\x7d"

def prettyItems (depth : Nat) : List Json → String
  | [] => ""
  | v :: vs => "," ++ newline (depth + 1) ++ pretty (depth + 1) v ++ prettyItems depth vs

def prettyFields (depth : Nat) : List (String × Json) → String
  | [] => ""
  | (n, v) :: fs =>
    "," ++ newline (depth + 1) ++ quote n ++ ": " ++ pretty (depth + 1) v ++ prettyFields depth fs

end

mutual

def compact : Json → String
  | .null => "null"
  | .bool b => if b then "true" else "false"
  | .num n => n.render
  | .str s => quote s
  | .arr [] => "[]"
  | .arr (v :: vs) => "[" ++ compact v ++ compactItems vs ++ "]"
  | .obj [] => "\x7b\x7d"
  | .obj ((n, v) :: fs) => "\x7b" ++ quote n ++ ":" ++ compact v ++ compactFields fs ++ "\x7d"

def compactItems : List Json → String
  | [] => ""
  | v :: vs => "," ++ compact v ++ compactItems vs

def compactFields : List (String × Json) → String
  | [] => ""
  | (n, v) :: fs => "," ++ quote n ++ ":" ++ compact v ++ compactFields fs

end

end Json
end WorkflowLint
