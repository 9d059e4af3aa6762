import WorkflowLint.Path
import WorkflowLint.Text.Span

/-! Syntax trees: the mappings, sequences and scalars of a document with the characters that they
cover. The nodes are numbered, and a node has a smaller number than those inside of it. -/
namespace WorkflowLint

inductive ScalarStyle where
  | plain
  | singleQuoted
  | doubleQuoted
  | block
  | empty
deriving DecidableEq, Repr

inductive NodeContent where
  | map (pairs : List (Nat × Nat))
  | sequence (items : List Nat)
  /-- `raw` is the source of the scalar with its quotes, `value` the text that it stands for. -/
  | scalar (style : ScalarStyle) (raw value : String)
deriving DecidableEq, Repr

structure SyntaxNode where
  content : NodeContent
  span : Span
  parent : Option Nat
deriving DecidableEq, Repr

namespace SyntaxNode

def pairs (n : SyntaxNode) : List (Nat × Nat) :=
  match n.content with
  | .map pairs => pairs
  | _ => []

def items (n : SyntaxNode) : List Nat :=
  match n.content with
  | .sequence items => items
  | _ => []

def value (n : SyntaxNode) : String :=
  match n.content with
  | .scalar _ _ value => value
  | _ => ""

def isScalar (n : SyntaxNode) : Bool :=
  match n.content with
  | .scalar .. => true
  | _ => false

def isMap (n : SyntaxNode) : Bool :=
  match n.content with
  | .map _ => true
  | _ => false

def isSequence (n : SyntaxNode) : Bool :=
  match n.content with
  | .sequence _ => true
  | _ => false

def isEmpty (n : SyntaxNode) : Bool :=
  match n.content with
  | .scalar .empty _ _ => true
  | _ => false

def isNull (n : SyntaxNode) : Bool :=
  match n.content with
  | .scalar .empty _ _ => true
  | .scalar .plain _ value => ["", "~", "null", "Null", "NULL"].contains value
  | _ => false

end SyntaxNode

structure SyntaxTree where
  nodes : Array SyntaxNode
  root : Option Nat
deriving DecidableEq, Repr

namespace SyntaxTree

def empty : SyntaxTree := ⟨#[], none⟩

def size (tree : SyntaxTree) : Nat := tree.nodes.size

def node? (tree : SyntaxTree) (id : Nat) : Option SyntaxNode := tree.nodes[id]?

def valueOf (tree : SyntaxTree) (id : Nat) : String := ((tree.node? id).map (·.value)).getD ""

def spanOf (tree : SyntaxTree) (id : Nat) : Span := ((tree.node? id).map (·.span)).getD ⟨0, 0⟩

def pairsOf (tree : SyntaxTree) (id : Nat) : List (Nat × Nat) :=
  ((tree.node? id).map (·.pairs)).getD []

def itemsOf (tree : SyntaxTree) (id : Nat) : List Nat :=
  ((tree.node? id).map (·.items)).getD []

def parentOf (tree : SyntaxTree) (id : Nat) : Option Nat := (tree.node? id).bind (·.parent)

def get? (tree : SyntaxTree) (id : Nat) (key : String) : Option Nat :=
  ((tree.pairsOf id).find? fun (k, _) => tree.valueOf k == key).map (·.2)

def keyOf (tree : SyntaxTree) (id : Nat) : Option Nat :=
  (tree.parentOf id).bind fun parent => ((tree.pairsOf parent).find? (·.2 == id)).map (·.1)

/-- The step from a node to one inside of it. A key stands where its value does. -/
def stepTo (tree : SyntaxTree) (parent id : Nat) : Path :=
  match (tree.node? parent).map SyntaxNode.content with
  | some (NodeContent.map pairs) =>
    match pairs.find? fun (k, v) => k == id || v == id with
    | some (k, _) => [.key (tree.valueOf k)]
    | none => []
  | some (NodeContent.sequence items) =>
    match items.findIdx? (· == id) with
    | some i => [.index i]
    | none => []
  | _ => []

def pathOf (tree : SyntaxTree) (id : Nat) : Path :=
  match tree.parentOf id with
  | none => []
  | some parent =>
    if parent < id then pathOf tree parent ++ tree.stepTo parent id else []
termination_by id

end SyntaxTree
end WorkflowLint
