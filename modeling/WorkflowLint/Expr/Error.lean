import WorkflowLint.Expr.Token

/-! What can be wrong with an expression. -/
namespace WorkflowLint.Expr

inductive Fault where
  | unreadable (text : String)
  | leftOver (found : Token)
  | missing (wanted : Token) (found : Option Token)
  | missingName (found : Option Token)
  | endOfText
  | misplaced (found : Token)
  | unknownContext (name : String)
deriving DecidableEq, Repr

def Fault.message : Fault → String
  | .unreadable text => "unexpected character '" ++ text ++ "'"
  | .leftOver found => "unexpected token " ++ Token.reportNext (some found)
  | .missing wanted found =>
    "expected '" ++ wanted.text ++ "', found " ++ Token.reportNext found
  | .missingName found => "expected property name after '.', found " ++ Token.reportNext found
  | .endOfText => "unexpected end of expression"
  | .misplaced found => "unexpected token '" ++ found.text ++ "'"
  | .unknownContext name => "unknown context '" ++ name ++ "'"

structure ParseError where
  fault : Fault
  span : Span
deriving DecidableEq, Repr

def ParseError.message (e : ParseError) : String := e.fault.message

inductive Failure where
  | invalid
  | unknownAccess (path : String)
  /-- A sum did not fit a machine word, which ends the program. -/
  | overflow
deriving DecidableEq, Repr

def invalidExpression : String := "Invalid expression"

def overflowMessage : String := "attempt to add with overflow"

def Failure.message : Failure → String
  | .invalid => invalidExpression
  | .unknownAccess path => "Unknown context access: '" ++ path ++ "'"
  | .overflow => overflowMessage

structure EvalError where
  failure : Failure
  span : Span
deriving DecidableEq, Repr

def EvalError.message (e : EvalError) : String := e.failure.message

end WorkflowLint.Expr
