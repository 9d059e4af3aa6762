import WorkflowLint.Number.Binary64
import WorkflowLint.Text.Ascii
import WorkflowLint.Text.Span

/-! Syntax trees of expressions. -/
namespace WorkflowLint

namespace Expr

inductive Literal where
  | null
  | bool (b : Bool)
  | number (x : Binary64)
  | string (s : String)
deriving DecidableEq, Repr

inductive BinaryOp where
  | eq
  | ne
  | lt
  | le
  | gt
  | ge
  | and
  | or
deriving DecidableEq, Repr

def contexts : List String :=
  ["github", "env", "vars", "job", "jobs", "steps", "runner", "secrets", "strategy", "matrix",
    "needs", "inputs"]

def isContext (name : String) : Bool := contexts.any (Text.sameName · name)

end Expr

open WorkflowLint.Expr in
/-- An expression; each node has the bytes of the text it stands for. -/
inductive Expr where
  | literal (span : Span) (value : Literal)
  | context (span : Span) (name : String)
  | property (span : Span) (target : Expr) (name : String)
  | index (span : Span) (target : Expr) (index : Expr)
  | call (span : Span) (name : String) (args : List Expr)
  | apply (span : Span) (callee : Expr) (args : List Expr)
  | binary (span : Span) (op : BinaryOp) (left : Expr) (right : Expr)
  | not (span : Span) (operand : Expr)
deriving Repr, Inhabited

namespace Expr

def span : Expr → Span
  | .literal s _ | .context s _ | .property s _ _ | .index s _ _ | .call s _ _ | .apply s _ _
  | .binary s _ _ _ | .not s _ => s

def withSpan (s : Span) : Expr → Expr
  | .literal _ v => .literal s v
  | .context _ name => .context s name
  | .property _ t name => .property s t name
  | .index _ t i => .index s t i
  | .call _ name args => .call s name args
  | .apply _ callee args => .apply s callee args
  | .binary _ op l r => .binary s op l r
  | .not _ e => .not s e

@[simp] theorem span_withSpan (s : Span) (e : Expr) : (e.withSpan s).span = s := by
  cases e <;> rfl

def joined (op : BinaryOp) (left right : Expr) : Expr :=
  .binary ⟨left.span.start, right.span.stop⟩ op left right

end Expr
end WorkflowLint
