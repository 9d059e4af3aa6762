import WorkflowLint.Text.Bytes
import WorkflowLint.Tree.Basic
import WorkflowLint.Tree.Decode
import WorkflowLint.Tree.Outline

/-! The syntax tree of a text. The parts of an outline are numbered in the order in which they
begin, so that the number of a node is the count of those before it. -/
namespace WorkflowLint.Tree

namespace Outline

mutual

def weight : Outline → Nat
  | .nothing _ | .scalar .. => 1
  | .sequence items _ => weightOfItems items + 1
  | .map pairs _ => weightOfPairs pairs + 1

def weightOfItems : List Outline → Nat
  | [] => 0
  | o :: rest => weight o + weightOfItems rest

def weightOfPairs : List (Outline × Outline) → Nat
  | [] => 0
  | (k, v) :: rest => weight k + weight v + weightOfPairs rest

end

def itemIds (id : Nat) : List Outline → List Nat
  | [] => []
  | o :: rest => id :: itemIds (id + o.weight) rest

def pairIds (id : Nat) : List (Outline × Outline) → List (Nat × Nat)
  | [] => []
  | (k, v) :: rest => (id, id + k.weight) :: pairIds (id + k.weight + v.weight) rest

end Outline

structure Source where
  text : Array Char
  place : Nat → Nat

namespace Source

def ofText (text : List Char) : Source := ⟨text.toArray, (Text.CharIndex.ofText text).toChar⟩

def span (source : Source) (bytes : Span) : Span :=
  ⟨source.place bytes.start, source.place bytes.stop⟩

def slice (source : Source) (s : Span) : List Char := (source.text.extract s.start s.stop).toList

end Source

def decode (style : Yaml.Style) (raw : List Char) : NodeContent :=
  match style with
  | .plain => .scalar .plain (String.ofList raw) (String.ofList (foldLines raw))
  | .singleQuoted => .scalar .singleQuoted (String.ofList raw) (String.ofList (decodeSingle raw))
  | .doubleQuoted => .scalar .doubleQuoted (String.ofList raw) (String.ofList (decodeDouble raw))
  | .block => .scalar .block (String.ofList raw) (String.ofList (decodeBlock raw))

namespace Outline

mutual

/-- The nodes of an outline, the first one with the given number. -/
def listing (source : Source) (id : Nat) (parent : Option Nat) : Outline → List SyntaxNode
  | .nothing byte => [⟨.scalar .empty "" "", .point (source.place byte), parent⟩]
  | .scalar style bytes =>
    [⟨decode style (source.slice (source.span bytes)), source.span bytes, parent⟩]
  | .sequence items bytes =>
    ⟨.sequence (itemIds (id + 1) items), source.span bytes, parent⟩ ::
      listingOfItems source (id + 1) id items
  | .map pairs bytes =>
    ⟨.map (pairIds (id + 1) pairs), source.span bytes, parent⟩ ::
      listingOfPairs source (id + 1) id pairs

def listingOfItems (source : Source) (id parent : Nat) : List Outline → List SyntaxNode
  | [] => []
  | o :: rest =>
    listing source id (some parent) o ++ listingOfItems source (id + weight o) parent rest

def listingOfPairs (source : Source) (id parent : Nat) :
    List (Outline × Outline) → List SyntaxNode
  | [] => []
  | (k, v) :: rest =>
    listing source id (some parent) k ++ listing source (id + weight k) (some parent) v ++
      listingOfPairs source (id + weight k + weight v) parent rest

end

end Outline
end WorkflowLint.Tree

namespace WorkflowLint.SyntaxTree

def ofOutline (source : Tree.Source) (outline : Tree.Outline) : SyntaxTree :=
  ⟨(outline.listing source 0 none).toArray, some 0⟩

def ofConcrete (text : List Char) (concrete : Yaml.Concrete) : SyntaxTree :=
  match Tree.Outline.ofConcrete? concrete with
  | none => .empty
  | some outline => ofOutline (.ofText text) outline

def ofText (text : List Char) : SyntaxTree := ofConcrete text (.ofText text)

end WorkflowLint.SyntaxTree
