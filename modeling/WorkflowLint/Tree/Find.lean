import WorkflowLint.Tree.Basic

/-! The node at an offset. -/
namespace WorkflowLint.SyntaxTree

def lastBefore? {α : Type} (start : α → Nat) (offset : Nat) (xs : List α) : Option α :=
  (xs.takeWhile fun x => start x ≤ offset).getLast?

/-- The part of a node that touches an offset. A missing value is no place of its own. -/
def childAt? (tree : SyntaxTree) (n : SyntaxNode) (offset : Nat) : Option Nat :=
  match n.content with
  | .map pairs => do
    let (key, value) ← lastBefore? (fun (k, _) => (tree.spanOf k).start) offset pairs
    let v ← tree.node? value
    if (tree.spanOf key).touches offset then some key
    else if !v.isEmpty && v.span.touches offset then some value
    else none
  | .sequence items => do
    let item ← lastBefore? (fun i => (tree.spanOf i).start) offset items
    if (tree.spanOf item).touches offset then some item else none
  | .scalar .. => none

def findFrom (tree : SyntaxTree) (offset : Nat) (id : Nat) : Nat :=
  match (tree.node? id).bind (tree.childAt? · offset) with
  | none => id
  | some child => if _ : id < child ∧ child < tree.size then findFrom tree offset child else id
termination_by tree.size - id
decreasing_by omega

def find? (tree : SyntaxTree) (offset : Nat) : Option Nat :=
  tree.root.bind fun root =>
    if (tree.spanOf root).touches offset then some (findFrom tree offset root) else none

end WorkflowLint.SyntaxTree
