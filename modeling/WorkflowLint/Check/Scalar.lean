import WorkflowLint.Diagnostic
import WorkflowLint.Expr.Eval
import WorkflowLint.Expr.Parser
import WorkflowLint.Marker

/-! The expressions of one scalar. -/
namespace WorkflowLint.Check

def expression (provider : ContextProvider) (source : List Char) : Except String Expr.Evaluation :=
  match Expr.parse source with
  | .error _ => .error Expr.invalidExpression
  | .ok e =>
    let env : Expr.Env := ⟨(Expr.Snapshot.capture provider e).resolver, .builtins⟩
    match Expr.eval env e with
    | .error err => .error err.message
    | .ok v => .ok v

def marker (provider : ContextProvider) : Marker → Except String Expr.Evaluation
  | .complete source _ => expression provider source
  | .unterminated _ => .error Expr.invalidExpression

/-- A stretch of bytes of a text as characters of the document, in which the text begins at
`base`. -/
def absolute (text : List Char) (base : Nat) (s : Span) : Span :=
  ⟨base + Text.charOffset text s.start, base + Text.charOffset text s.stop⟩

structure MarkerValue where
  span : Span
  value : Expr.Evaluation
deriving Repr

structure MarkerReport where
  values : List MarkerValue
  failed : Bool
  diagnostics : List Diagnostic
deriving Repr

namespace MarkerReport

def empty : MarkerReport := ⟨[], false, []⟩

def add (r : MarkerReport) (span : Span) : Except String Expr.Evaluation → MarkerReport
  | .ok v => { r with values := r.values ++ [⟨span, v⟩] }
  | .error message =>
    { r with failed := true, diagnostics := r.diagnostics ++ [.error message span] }

end MarkerReport

def markersOf (provider : ContextProvider) (text : List Char) (base : Nat) : MarkerReport :=
  (markers text).foldl
    (fun r m => r.add (absolute text base m.span) (marker provider m)) .empty

def implicitExpression (provider : ContextProvider) (text : List Char) (span : Span) :
    Option Expr.Evaluation × List Diagnostic :=
  if Text.isBlankText text then (none, [])
  else match expression provider text with
    | .ok v => (some v, [])
    | .error message => (none, [.error message span])

/-- One of the expressions ended in an overflow, and the program with it. -/
def overflowed (ds : List Diagnostic) : Bool := ds.any (·.message == Expr.overflowMessage)

end WorkflowLint.Check
