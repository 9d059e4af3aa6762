import WorkflowLint.Tree.Basic
import WorkflowLint.Tree.Build
import WorkflowLint.Yaml.Load

/-! The value of a document as its tree has it. -/
namespace WorkflowLint.SyntaxTree
open Yaml (Value)

def insertValue (entries : List (Value × Value)) (key : String) (value : Value) :
    List (Value × Value) :=
  if entries.any fun e => e.1.isText key then
    entries.map fun e => if e.1.isText key then (e.1, value) else e
  else entries ++ [(.str key, value)]

def plainValue (text : String) : Value :=
  match Value.ofDocument? text.toList with
  | some (.null) => .null
  | some (.bool b) => .bool b
  | some (.num n) => .num n
  | some (.str s) => .str s
  | _ => .str text

/-- The value of a node: keys are texts, of which the last one counts, and tags and aliases mean
nothing. -/
def toValue (tree : SyntaxTree) (id : Nat) : Value :=
  match (tree.node? id).map SyntaxNode.content with
  | none => .null
  | some (.scalar .plain _ value) => plainValue value
  | some (.scalar .empty _ _) => .null
  | some (.scalar _ _ value) => .str value
  | some (.sequence items) =>
    .seq (items.map fun item =>
      if _ : id < item ∧ item < tree.size then toValue tree item else .null)
  | some (.map pairs) =>
    .map (pairs.foldl (fun entries (k, v) =>
      insertValue entries (tree.valueOf k)
        (if _ : id < v ∧ v < tree.size then toValue tree v else .null)) [])
termination_by tree.size - id
decreasing_by all_goals omega

/-- The value of a text, which is rebuilt from the tree if the text has none of its own. -/
def workflow (text : List Char) (tree : SyntaxTree) : Value :=
  match Value.ofDocument? text with
  | some value => value
  | none =>
    match tree.root with
    | some root => tree.toValue root
    | none => .null

end WorkflowLint.SyntaxTree
