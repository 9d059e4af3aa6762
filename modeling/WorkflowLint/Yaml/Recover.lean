import WorkflowLint.Yaml.Load

/-! The nodes of a text that need not be a document. Where a flow collection is left open, the
lines up to the first one that belongs to the block around it are skipped; behind any other fault
nothing is read, and the parts that were complete by then are all there is. -/
namespace WorkflowLint.Yaml

namespace Frame

def isFlow : Frame → Bool
  | .flowSequence .. | .flowMapping .. | .flowPair .. => true
  | _ => false

def start : Frame → Nat
  | .blockSequence _ start .. | .blockMapping _ start .. => start
  | .flowSequence _ start .. | .flowMapping _ start .. => start
  | _ => 0

def pendingNode (readAhead : Bool) : Stage → List Node
  | .atColon _ key => [key]
  | .atValue start key colon => if readAhead then [key] else [(Pair.lone start key colon).toNode]
  | _ => []

def parts (readAhead : Bool) : Frame → List Node
  | .blockMapping _ _ pairs stage | .flowMapping _ _ pairs stage =>
    pairs.reverse.map Pair.toNode ++ pendingNode readAhead stage
  | .flowSequence _ _ items _ => items.reverse
  | .flowPair stage => pendingNode readAhead stage
  | .blockSequence .. | .properties _ => []

end Frame

def partsOf (inside : Bool) : List Frame → List Node
  | [] => []
  | frame :: rest =>
    let innermost := frame.parts inside
    (rest.reverse.flatMap (·.parts true)) ++ innermost

def splitAtByte : Nat → List Char → List Char × List Char
  | _, [] => ([], [])
  | n, c :: rest =>
    if n < c.utf8Size then ([], c :: rest)
    else
      let (front, rest) := splitAtByte (n - c.utf8Size) rest
      (c :: front, rest)

def lastColumn (text : List Char) : Nat := columnAfter 0 text

/-- How many characters come before the first line that is not empty and indented by no more than
`column`; `none` if there is no such line. -/
def untilLine (column : Nat) : List Char → Option Nat
  | [] => none
  | c :: rest =>
    if isBreak c then
      let indent := (rest.takeWhile (· = ' ')).length
      match rest.drop indent with
      | [] => none
      | d :: _ =>
        if indent ≤ column && !isBreak d then some 0 else (untilLine column rest).map (· + 1)
    else (untilLine column rest).map (· + 1)

def commentOut (size : Nat) (text : List Char) : List Char :=
  '#' :: (text.take size).tail.map (fun c => if isBreak c then ' ' else c) ++ text.drop size

/-- The text without the open flow collection that keeps the block around it from going on. -/
def skipOpenFlow? (text : List Char) (stack : List Frame) : Option (List Char) :=
  match (stack.takeWhile Frame.isFlow).getLast?, stack.dropWhile Frame.isFlow with
  | some flow, block :: _ =>
    let column := lastColumn (splitAtByte block.start text).1
    let (front, rest) := splitAtByte flow.start text
    (untilLine column rest).map fun size => front ++ commentOut size rest
  | _, _ => none

def rootsOf : Nat → List Char → List Node
  | rounds, text =>
    let tokens := Tokens.scan true text
    let (stream, fault) := Stream.new.feedAll tokens.all
    let done := stream.documents.reverse.filterMap (·.root)
    match fault.or tokens.fault, stream.phase with
    | some fault, .inside d | some fault, .opened d =>
      match rounds, skipOpenFlow? text d.stack with
      | rounds + 1, some text => rootsOf rounds text
      | _, _ => done ++ partsOf (fault.activity = some .quotedScalar) d.stack ++ d.root.toList
    | _, _ => done

/-- A character of the same length for a line break that is none to a lenient reader, who knows
only carriage returns and line feeds. -/
def hideBreak (c : Char) : Char :=
  if c = '\u0085' then '\u00A0' else if c = '\u2028' || c = '\u2029' then '\u3000' else c

def roots (text : List Char) : List Node := rootsOf text.length (text.map hideBreak)

end WorkflowLint.Yaml
