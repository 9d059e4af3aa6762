import WorkflowLint.Analysis
import WorkflowLint.Tree.Find

/-! What is said about the place of the cursor. -/
namespace WorkflowLint.Analysis

def effectiveShape? (a : Analysis) (id : Nat) : Option Shape := do
  let shape ← a.report.shape? id
  match shape with
  | .sequence _ item =>
    if !a.isKey id && !((a.tree.node? id).any SyntaxNode.isSequence) then some item else some shape
  | shape => some shape

def valueText? (a : Analysis) (shape : Shape) (id : Nat) : Option String := do
  let n ← a.tree.node? id
  if shape.isScalar && n.isScalar then
    let allowed := (shape.allowedValues a.workflow (a.tree.pathOf id)).getD []
    (← allowed.find? (·.value == n.value)).description
  else none

/-- The text for an offset. One for the value comes before one for the place, and a place without
one takes that of its key. -/
def hover? (a : Analysis) (offset : Nat) : Option String := do
  let id ← a.tree.find? offset
  let shape ← a.effectiveShape? id
  let ofKey := do (← a.report.shape? (← a.tree.keyOf id)).description
  ((a.valueText? shape id).or shape.description).or ofKey

end WorkflowLint.Analysis
