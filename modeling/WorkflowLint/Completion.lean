import WorkflowLint.Analysis
import WorkflowLint.Expr.Function
import WorkflowLint.Tree.Find

/-! What can be written at the cursor: keys and values outside of expressions; contexts, functions
and properties inside. -/
namespace WorkflowLint

inductive Completion.Kind where
  | key
  | value
  | context
  | function
  | property
deriving DecidableEq, Repr

structure Completion where
  label : String
  kind : Completion.Kind
  description : Option String
deriving DecidableEq, Repr

namespace Completion

/-- The characters of an expression left of the cursor, which stands `cursor` characters into the
scalar, if it stands in an expression. -/
def expressionBefore? (raw : List Char) (cursor : Nat) : Option (List Char) :=
  let byte := Text.byteLength (raw.take cursor)
  ((markers raw).find? fun m => m.expressionStart ≤ byte && byte ≤ m.expressionStop).map fun m =>
    (raw.take cursor).drop (Text.charOffset raw m.expressionStart)

def isNameStart (c : Char) : Bool := c.isAlpha || c = '_'

def isChainChar (c : Char) : Bool := c.isAlphanum || c = '_' || c = '-' || c = '.'

def accessChain (text : List Char) : List Char :=
  ((text.reverse.takeWhile isChainChar).reverse).dropWhile fun c => !isNameStart c

def splitDots : List Char → List (List Char)
  | [] => [[]]
  | c :: rest =>
    if c = '.' then [] :: splitDots rest
    else
      match splitDots rest with
      | [] => [[c]]
      | part :: parts => (c :: part) :: parts

def chainNames (before : List Char) : List String :=
  (splitDots (accessChain before)).dropLast.map String.ofList

def roots : List Completion :=
  Expr.contexts.map (⟨·, .context, none⟩) ++
    Expr.Functions.builtins.names.map (⟨·, .function, none⟩)

def inExpression (provider : ContextProvider) (before : List Char) : List Completion :=
  match chainNames before with
  | [] => roots
  | root :: rest =>
    match provider (Text.asciiLower root) with
    | none => []
    | some context => (context.fieldNames (rest.map Segment.key)).map (⟨·, .property, none⟩)

end Completion

namespace Analysis

/-- The keys that a mapping does not have yet. The one that is being edited may be replaced. -/
def missingKeys (a : Analysis) (map : Nat) (editing : Option Nat) : List Completion :=
  match a.report.shape? map with
  | some (.map _ keys _ _) =>
    let present := ((a.tree.pairsOf map).filter fun (k, _) => some k ≠ editing).map fun (k, _) =>
      a.tree.valueOf k
    (keys.filter fun (name, _) => !present.contains name).map fun (name, shape) =>
      ⟨name, .key, shape.description⟩
  | _ => []

/-- The shape of a scalar. A lone node in the place of a sequence is its only item. -/
def scalarShape? (a : Analysis) (id : Nat) : Option Shape :=
  match a.report.shape? id with
  | some (.value note allowed implicit) => some (.value note allowed implicit)
  | some (.sequence _ item) => if item.isScalar then some item else none
  | _ => none

def allowedValues (a : Analysis) (id : Nat) : List Completion :=
  match a.scalarShape? id with
  | none => []
  | some shape =>
    ((shape.allowedValues a.workflow (a.tree.pathOf id)).getD []).map fun v =>
      ⟨v.value, .value, v.description⟩

def complete (a : Analysis) (contexts : ContextFactory) (offset : Nat) : List Completion :=
  match a.tree.find? offset with
  | none => []
  | some id =>
    match a.tree.node? id with
    | none => []
    | some n =>
      let before := match n.content with
        | .scalar _ raw _ => Completion.expressionBefore? raw.toList (offset - n.span.start)
        | _ => none
      match before with
      | some before =>
        Completion.inExpression (contexts a.workflow (a.tree.pathOf id)) before
      | none =>
        if a.isKey id then
          match a.tree.parentOf id with
          | some map => a.missingKeys map (some id)
          | none => []
        else if n.isMap then a.missingKeys id none
        else a.allowedValues id

end Analysis
end WorkflowLint
