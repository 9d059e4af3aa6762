import WorkflowLint.Text.Lines

/-! What is reported about a document. -/
namespace WorkflowLint

inductive Severity where
  | error
  | warning
  | information
  | hint
deriving DecidableEq, Repr

structure Diagnostic where
  message : String
  span : Span
  severity : Severity
deriving DecidableEq, Repr

namespace Diagnostic

def error (message : String) (span : Span) : Diagnostic := ⟨message, span, .error⟩

/-- In the order of the document. Those that begin at one place stay in the order in which they
were reported. -/
def sorted (ds : List Diagnostic) : List Diagnostic :=
  ds.mergeSort fun a b => decide (a.span.start ≤ b.span.start)

end Diagnostic
end WorkflowLint
