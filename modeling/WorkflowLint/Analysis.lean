import WorkflowLint.Check.Walk
import WorkflowLint.Text.Bytes
import WorkflowLint.Tree.Value

/-! All that is known about a text. -/
namespace WorkflowLint

structure Analysis where
  tree : SyntaxTree
  workflow : Yaml.Value
  report : Check.Report
  diagnostics : List Diagnostic

namespace Analysis

def syntaxErrors (text : List Char) : List Diagnostic :=
  match Yaml.check? text with
  | some e => [.error e.message (.point ((Text.CharIndex.ofText text).toChar e.index))]
  | none => []

def ofDocument (shape : Shape) (d : Check.Document) (before : List Diagnostic) : Analysis :=
  let report := Check.document d shape
  ⟨d.tree, d.workflow, report, Diagnostic.sorted (before ++ report.diagnostics)⟩

/-- What can be read of a text is compared with the shape, though the text may be no document. -/
def ofText (shape : Shape) (contexts : ContextFactory) (text : List Char) : Analysis :=
  let tree := SyntaxTree.ofText text
  ofDocument shape ⟨tree, tree.workflow text, contexts⟩ (syntaxErrors text)

def isKey (a : Analysis) (id : Nat) : Bool :=
  (a.tree.parentOf id).any fun parent => (a.tree.pairsOf parent).any (·.1 == id)

end Analysis
end WorkflowLint
