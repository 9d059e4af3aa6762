import WorkflowLint.Text.Bytes
import WorkflowLint.Yaml.Recover

/-! Concrete trees: all that a reader sees of a text, among it comments, properties and stretches
that are at fault. -/
namespace WorkflowLint.Yaml

/-- What is written in the place of a node. Block and flow collections are told apart only as to
what may be a key without a value. -/
inductive Concrete.Kind where
  | stream
  | document
  | error
  | blockNode
  | flowNode
  | mapping
  | pair
  | sequence
  | item
  | scalar (style : Style)
  | alias
  | anchor
  | tag
  | comment
  | other
deriving DecidableEq, Repr

inductive Concrete.Role where
  | none
  | key
  | value
deriving DecidableEq, Repr

inductive Concrete where
  | node (kind : Concrete.Kind) (role : Concrete.Role) (bytes : Span) (children : List Concrete)
deriving Repr

namespace Concrete

def kind : Concrete → Kind
  | .node kind .. => kind

def role : Concrete → Role
  | .node _ role .. => role

def bytes : Concrete → Span
  | .node _ _ bytes _ => bytes

def Kind.isAside : Kind → Bool
  | .anchor | .tag | .comment => true
  | _ => false

mutual

def ofNode (shift : Nat) (role : Role) : Node → Concrete
  | .bare _ stop => .node .flowNode role (.point (stop + shift)) []
  | .scalar _ style _ span =>
    .node .flowNode role (span.shift shift) [.node (.scalar style) .none (span.shift shift) []]
  | .alias _ span =>
    .node .flowNode role (span.shift shift) [.node .alias .none (span.shift shift) []]
  | .sequence _ items span =>
    .node .blockNode role (span.shift shift)
      [.node .sequence .none (span.shift shift) (ofItems shift items)]
  | .mapping _ pairs span =>
    .node .blockNode role (span.shift shift)
      [.node .mapping .none (span.shift shift) (ofPairs shift pairs)]

def ofItems (shift : Nat) : List Node → List Concrete
  | [] => []
  | n :: rest =>
    .node .item .none (n.span.shift shift) (if n.isMissing then [] else [ofNode shift .none n]) ::
      ofItems shift rest

def ofPairs (shift : Nat) : List (Node × Node) → List Concrete
  | [] => []
  | (k, v) :: rest =>
    .node .pair .none ⟨k.span.start + shift, v.span.stop + shift⟩
        ((if k.isMissing then [] else [ofNode shift .key k]) ++
          if v.isMissing then [] else [ofNode shift .value v]) ::
      ofPairs shift rest

end

/-- A text as its nodes at the outermost level. A byte order mark at its front counts, though it
belongs to no node. -/
def ofText (text : List Char) : Concrete :=
  let body := dropMark text
  let shift := Text.byteLength text - Text.byteLength body
  let nodes := (roots body).filter fun n => !n.isMissing
  .node .stream .none ⟨0, Text.byteLength text⟩ (nodes.map (ofNode shift .none))

end Concrete
end WorkflowLint.Yaml
