import WorkflowLint.Text.Span
import WorkflowLint.Yaml.Token

/-! The nodes of a document, with the bytes that they cover. -/
namespace WorkflowLint.Yaml

structure Properties where
  anchor : Option Nat
  tag : Option String
deriving DecidableEq, Repr

def Properties.none : Properties := ⟨.none, .none⟩

/-- The span of a node leaves out its properties. -/
inductive Node where
  | bare (properties : Properties) (stop : Nat)
  | scalar (properties : Properties) (style : Style) (text : String) (span : Span)
  | alias (anchor : Option Nat) (span : Span)
  | sequence (properties : Properties) (items : List Node) (span : Span)
  | mapping (properties : Properties) (pairs : List (Node × Node)) (span : Span)
deriving Repr

namespace Node

def isMissing : Node → Bool
  | .bare p _ => p = .none
  | _ => false

def missing (stop : Nat) : Node := .bare .none stop

def span : Node → Span
  | .bare _ stop => .point stop
  | .scalar _ _ _ span | .alias _ span | .sequence _ _ span | .mapping _ _ span => span

def stop (n : Node) : Nat := n.span.stop

end Node
end WorkflowLint.Yaml
