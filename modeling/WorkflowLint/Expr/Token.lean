import WorkflowLint.Number.Layout
import WorkflowLint.Text.Quoted
import WorkflowLint.Text.Span

/-! Tokens of the expression language. -/
namespace WorkflowLint.Expr

inductive Token where
  | number (x : Binary64)
  | string (s : String)
  | ident (name : String)
  | true
  | false
  | null
  | eq
  | ne
  | le
  | ge
  | lt
  | gt
  | and
  | or
  | not
  | openParen
  | closeParen
  | openBracket
  | closeBracket
  | dot
  | comma
deriving DecidableEq, Repr, Inhabited

namespace Token

def layout : Layout where
  lowest := none
  highest := none
  pointZero := Bool.false
  plus := Bool.false
  tieUp := Bool.true
  infinity := "inf"
  nan := "NaN"

/-- Numbers in a report on a token: an exponent from 1e16 on and below 1e-4. -/
def reportLayout : Layout where
  lowest := some (-3)
  highest := some 16
  pointZero := Bool.true
  plus := Bool.false
  tieUp := Bool.true
  infinity := "inf"
  nan := "NaN"

def doubleQuotes : List Char → List Char
  | [] => []
  | c :: cs => if c = '\'' then '\'' :: '\'' :: doubleQuotes cs else c :: doubleQuotes cs

def text : Token → String
  | .number x => layout.render x
  | .string s => String.ofList ('\'' :: doubleQuotes s.toList ++ ['\''])
  | .ident name => name
  | .true => "true"
  | .false => "false"
  | .null => "null"
  | .eq => "=="
  | .ne => "!="
  | .le => "<="
  | .ge => ">="
  | .lt => "<"
  | .gt => ">"
  | .and => "&&"
  | .or => "||"
  | .not => "!"
  | .openParen => "("
  | .closeParen => ")"
  | .openBracket => "["
  | .closeBracket => "]"
  | .dot => "."
  | .comma => ","

def report : Token → String
  | .number x => "Number(" ++ reportLayout.render x ++ ")"
  | .string s => "String(" ++ Text.quoted s ++ ")"
  | .ident name => "Ident(" ++ Text.quoted name ++ ")"
  | .true => "True"
  | .false => "False"
  | .null => "Null"
  | .eq => "EqEq"
  | .ne => "Ne"
  | .le => "Le"
  | .ge => "Ge"
  | .lt => "Lt"
  | .gt => "Gt"
  | .and => "And"
  | .or => "Or"
  | .not => "Not"
  | .openParen => "LParen"
  | .closeParen => "RParen"
  | .openBracket => "LBracket"
  | .closeBracket => "RBracket"
  | .dot => "Dot"
  | .comma => "Comma"

def reportNext : Option Token → String
  | none => "None"
  | some t => "Some(" ++ t.report ++ ")"

end Token

structure Lexeme where
  token : Token
  span : Span
deriving DecidableEq, Repr, Inhabited

end WorkflowLint.Expr
