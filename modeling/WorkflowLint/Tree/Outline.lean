import WorkflowLint.Yaml.Concrete

/-! Outlines: what a concrete tree says of the document, with all that is beside it left out and
all that is missing from it filled in. -/
namespace WorkflowLint.Tree
open Yaml (Concrete)

inductive Outline where
  | nothing (byte : Nat)
  | scalar (style : Yaml.Style) (bytes : Span)
  | sequence (items : List Outline) (bytes : Span)
  | map (pairs : List (Outline × Outline)) (bytes : Span)
deriving Repr

namespace Outline

def bytes : Outline → Span
  | .nothing byte => .point byte
  | .scalar _ bytes | .sequence _ bytes | .map _ bytes => bytes

def keyStop (children : List Concrete) (pair : Span) : Nat :=
  ((children.find? (·.role = .key)).map (·.bytes.stop)).getD pair.stop

/-- A pair, if it has a key. A value that is missing stands at `stop`. -/
def paired (stop : Nat) (key value : Option Outline) : Option (Outline × Outline) :=
  key.map fun key => (key, value.getD (.nothing stop))

mutual

/-- The outline of a concrete tree, if it holds anything of the document. A pair that stands alone
is a mapping, and an alias is a scalar. -/
def ofConcrete? : Concrete → Option Outline
  | .node kind _ bytes children =>
    match kind with
    | .stream | .document | .error => first? children
    | .blockNode | .flowNode => content? bytes.stop children
    | .mapping => some (.map (entries children) bytes)
    | .pair =>
      let pair := paired (keyStop children bytes) (part? .key children) (part? .value children)
      some (.map pair.toList bytes)
    | .sequence => some (.sequence (items children) bytes)
    | .scalar style => some (.scalar style bytes)
    | .alias => some (.scalar .plain bytes)
    | .item | .anchor | .tag | .comment | .other => none

def first? : List Concrete → Option Outline
  | [] => none
  | c :: rest => (ofConcrete? c).or (first? rest)

def content? (stop : Nat) : List Concrete → Option Outline
  | [] => some (.nothing stop)
  | c :: rest => if c.kind.isAside then content? stop rest else ofConcrete? c

def part? (role : Concrete.Role) : List Concrete → Option Outline
  | [] => none
  | c :: rest => if c.role = role then ofConcrete? c else part? role rest

def pairOf? : Concrete → Option (Outline × Outline)
  | .node _ _ bytes children =>
    paired (keyStop children bytes) (part? .key children) (part? .value children)

def entries : List Concrete → List (Outline × Outline)
  | [] => []
  | c :: rest =>
    match c.kind with
    | .pair => (pairOf? c).toList ++ entries rest
    | .flowNode => (paired c.bytes.stop (ofConcrete? c) none).toList ++ entries rest
    | _ => entries rest

def dashed : Concrete → Outline
  | .node _ _ bytes children => (first? children).getD (.nothing bytes.stop)

def items : List Concrete → List Outline
  | [] => []
  | c :: rest =>
    match c.kind with
    | .item => dashed c :: items rest
    | _ => (ofConcrete? c).toList ++ items rest

end

end Outline
end WorkflowLint.Tree
