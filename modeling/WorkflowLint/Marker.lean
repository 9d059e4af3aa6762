import WorkflowLint.Text.Bytes

/-! Expressions embedded in a text between an opening `$` with two braces and two closing
braces. -/
namespace WorkflowLint

inductive Marker where
  | complete (expression : List Char) (span : Span)
  | unterminated (span : Span)
deriving DecidableEq, Repr

namespace Marker

def span : Marker → Span
  | .complete _ s | .unterminated s => s

def openLength : Nat := 3

def closeLength : Nat := 2

def expressionStart (m : Marker) : Nat := m.span.start + openLength

def expressionStop : Marker → Nat
  | .complete _ s => s.stop - closeLength
  | .unterminated s => s.stop

/-- Between markers, or inside the one that begins at `start`: its characters so far, last one
first, and whether a quote is open. -/
inductive Scan where
  | outside
  | inside (start : Nat) (soFar : List Char) (quoted : Bool)

/-- The markers of a text that begins at the byte `offset`. Two closing braces between quotes do
not close a marker; as a quote in a quoted text is written twice, it is enough to count them. -/
def scan : Nat → Scan → List Char → List Marker
  | _, .outside, [] => []
  | offset, .inside start _ _, [] => [.unterminated ⟨start, offset⟩]
  | offset, .outside, '$' :: '\x7b' :: '\x7b' :: rest =>
    scan (offset + openLength) (.inside offset [] false) rest
  | offset, .outside, c :: rest => scan (offset + c.utf8Size) .outside rest
  | offset, .inside start soFar false, '\x7d' :: '\x7d' :: rest =>
    .complete soFar.reverse ⟨start, offset + closeLength⟩ ::
      scan (offset + closeLength) .outside rest
  | offset, .inside start soFar quoted, c :: rest =>
    scan (offset + c.utf8Size) (.inside start (c :: soFar) (quoted != (c == '\''))) rest

end Marker

def markers (text : List Char) : List Marker := Marker.scan 0 .outside text

def hasMarkers : List Char → Bool
  | [] => false
  | '$' :: '\x7b' :: '\x7b' :: _ => true
  | _ :: cs => hasMarkers cs

end WorkflowLint
