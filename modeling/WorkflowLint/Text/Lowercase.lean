import WorkflowLint.Text.CaseTable

/-! The small form of a text. -/
namespace WorkflowLint.Text

namespace CaseRun

def lower? (run : CaseRun) (n : Nat) : Option Nat :=
  if run.first ≤ n ∧ n ≤ run.last ∧ (n - run.first) % run.stride = 0 then
    some (Int.toNat (n + run.shift))
  else none

end CaseRun

def lowerChar (c : Char) : List Char :=
  if c.toNat < 128 then [c.toLower]
  else if c = 'İ' then ['i', Char.ofNat 0x307]
  else [Char.ofNat ((caseRuns.findSome? (·.lower? c.toNat)).getD c.toNat)]

def meetsCased (text : List Char) : Bool :=
  match text.dropWhile caseIgnorable.holds with
  | [] => false
  | c :: _ => cased.holds c

/-- The small form of a text whose characters before it are `before`, last one first. A sigma
that ends a word has a small form of its own. -/
def lowercaseAfter (before : List Char) : List Char → List Char
  | [] => []
  | c :: cs =>
    let small :=
      if c = 'Σ' then if meetsCased before && !meetsCased cs then ['ς'] else ['σ']
      else lowerChar c
    small ++ lowercaseAfter (c :: before) cs

def lowercase (text : String) : String := String.ofList (lowercaseAfter [] text.toList)

end WorkflowLint.Text
