import WorkflowLint.Yaml.Node

/-! Documents out of tokens. What is open at a token is a stack of frames, innermost first, each
of which knows what it waits for. -/
namespace WorkflowLint.Yaml

structure RawProperties where
  anchor : Option String
  tag : Option (Tag × Mark)
  stop : Nat
deriving DecidableEq, Repr

/-- What of a pair has been read. A lone key stands in a flow mapping and may have no colon. -/
inductive Stage where
  | between (open_ : Bool)
  | atKey (start stop : Nat)
  | atLoneKey (start : Nat)
  | atColon (start : Nat) (key : Node)
  | atValue (start : Nat) (key : Node) (colon : Nat)
deriving Repr

structure Pair where
  key : Node
  value : Node
  span : Span
deriving Repr

/-- A collection that is open, its parts last one first. A sequence without a block of its own is
`indentless`, and `dash` is the end of a dash whose item has not begun. -/
inductive Frame where
  | blockSequence (properties : Properties) (start : Nat) (indentless : Bool) (items : List Node)
      (dash : Option Nat)
  | blockMapping (properties : Properties) (start : Nat) (pairs : List Pair) (stage : Stage)
  | flowSequence (properties : Properties) (start : Nat) (items : List Node) (open_ : Bool)
  | flowMapping (properties : Properties) (start : Nat) (pairs : List Pair) (stage : Stage)
  | flowPair (stage : Stage)
  | properties (p : RawProperties)
deriving Repr

structure Draft where
  stack : List Frame
  root : Option Node
  anchors : List (String × Nat)
  unknown : Option Mark
  handles : List (List Char × List Char)
deriving Repr

namespace Pair

def toNodes (pairs : List Pair) : List (Node × Node) := pairs.reverse.map fun p => (p.key, p.value)

def toNode (p : Pair) : Node := .mapping .none [(p.key, p.value)] p.span

def lone (start : Nat) (key : Node) (stop : Nat) : Pair :=
  ⟨key, .missing key.stop, ⟨start, stop⟩⟩

def full (start : Nat) (key : Node) (colon : Nat) (value : Node) : Pair :=
  if value.isMissing then lone start key colon else ⟨key, value, ⟨start, value.stop⟩⟩

end Pair

namespace Draft

def new (handles : List (List Char × List Char)) : Draft := ⟨[], none, [], none, handles⟩

def place (node : Node) : List Frame → Option Node → List Frame × Option Node
  | [], _ => ([], some node)
  | .blockSequence p start indentless items _ :: rest, root =>
    (.blockSequence p start indentless (node :: items) none :: rest, root)
  | .blockMapping p start pairs (.atKey begin_ _) :: rest, root =>
    (.blockMapping p start pairs (.atColon begin_ node) :: rest, root)
  | .blockMapping p start pairs (.atValue begin_ key colon) :: rest, root =>
    (.blockMapping p start (.full begin_ key colon node :: pairs) (.between true) :: rest, root)
  | .flowSequence p start items _ :: rest, root =>
    (.flowSequence p start (node :: items) false :: rest, root)
  | .flowMapping p start pairs (.atKey begin_ _) :: rest, root =>
    (.flowMapping p start pairs (.atColon begin_ node) :: rest, root)
  | .flowMapping p start pairs (.atLoneKey begin_) :: rest, root =>
    (.flowMapping p start (.lone begin_ node node.stop :: pairs) (.between false) :: rest, root)
  | .flowMapping p start pairs (.atValue begin_ key colon) :: rest, root =>
    (.flowMapping p start (.full begin_ key colon node :: pairs) (.between false) :: rest, root)
  | .flowPair (.atKey begin_ _) :: rest, root => (.flowPair (.atColon begin_ node) :: rest, root)
  | .flowPair (.atValue begin_ key colon) :: rest, root =>
    place (Pair.full begin_ key colon node).toNode rest root
  | stack, root => (stack, root)

def finish (d : Draft) (node : Node) : Draft :=
  let (stack, root) := place node d.stack d.root
  { d with stack := stack, root := root }

def push (d : Draft) (frame : Frame) : Draft := { d with stack := frame :: d.stack }

def change (d : Draft) (frame : Frame) : Draft := { d with stack := frame :: d.stack.tail }

def close (d : Draft) (node : Node) : Draft := { d with stack := d.stack.tail }.finish node

/-- The number of an anchor is the count of names known before it, so that one that is defined
again takes the number of the next new one. -/
def define (d : Draft) (name : String) : Nat × Draft :=
  let id := d.anchors.length
  let anchors :=
    if d.anchors.any (·.1 == name) then
      d.anchors.map fun (n, i) => if n == name then (n, id) else (n, i)
    else d.anchors ++ [(name, id)]
  (id, { d with anchors := anchors })

def resolveTag (d : Draft) (t : Tag) (mark : Mark) : Except Fault String :=
  if t.handle.isEmpty then .ok (String.ofList t.suffix)
  else
    match d.handles.find? (·.1 == t.handle) with
    | some (_, front) => .ok (String.ofList (front ++ t.suffix))
    | none => .error ⟨.undefinedHandle, some .node, mark⟩

def properties (d : Draft) (p : RawProperties) : Except Fault (Properties × Draft) := do
  let tag ← p.tag.mapM fun (t, mark) => d.resolveTag t mark
  match p.anchor with
  | none => return (⟨none, tag⟩, d)
  | some name =>
    let (id, d) := d.define name
    return (⟨some id, tag⟩, d)

/-- Whether the token can be the first one of a node's contents. Blocks do not begin inside flow
collections, and a sequence without a block of its own only in a pair of a block mapping. -/
def beginsNode (block indentless : Bool) : Token.Kind → Bool
  | .scalar .. | .flowSequenceStart | .flowMappingStart => true
  | .blockSequenceStart | .blockMappingStart => block
  | .blockEntry => indentless
  | _ => false

def beginNode (d : Draft) (p : Properties) (t : Token) : Draft :=
  match t.kind with
  | .scalar style text =>
    let p := if p.tag = some "!" then { p with tag := none } else p
    d.finish (.scalar p style text ⟨t.start.index, t.stop⟩)
  | .flowSequenceStart => d.push (.flowSequence p t.start.index [] true)
  | .flowMappingStart => d.push (.flowMapping p t.start.index [] (.between true))
  | .blockSequenceStart => d.push (.blockSequence p t.start.index false [] none)
  | .blockMappingStart => d.push (.blockMapping p t.start.index [] (.between true))
  | .blockEntry => d.push (.blockSequence p t.start.index true [] (some t.stop))
  | _ => d

def node (d : Draft) (block indentless : Bool) (t : Token) : Except Fault Draft :=
  if beginsNode block indentless t.kind then .ok (d.beginNode .none t)
  else
    match t.kind with
    | .alias name =>
      let id := (d.anchors.find? (·.1 == name)).map (·.2)
      let d := if id.isNone && d.unknown.isNone then { d with unknown := some t.start } else d
      .ok (d.finish (.alias id ⟨t.start.index, t.stop⟩))
    | .anchor name => .ok (d.push (.properties ⟨some name, none, t.stop⟩))
    | .tag tag => .ok (d.push (.properties ⟨none, some (tag, t.start), t.stop⟩))
    | _ => .error ⟨.missingContent, some (if block then .blockNode else .flowNode), t.start⟩

def allows : List Frame → Bool × Bool
  | .blockMapping .. :: _ => (true, true)
  | .blockSequence .. :: _ | [] => (true, false)
  | _ => (false, false)

def separator (d : Draft) (t : Token) : Except Fault Draft :=
  match d.stack with
  | .blockSequence p start false items _ :: _ =>
    match t.kind with
    | .blockEntry => .ok (d.change (.blockSequence p start false items (some t.stop)))
    | .blockEnd => .ok (d.close (.sequence p items.reverse ⟨start, t.gap⟩))
    | _ => .error ⟨.missingDash, some .blockSequence, t.start⟩
  | .blockMapping p start pairs (.atColon begin_ key) :: _ =>
    let lone := Pair.lone begin_ key key.stop :: pairs
    match t.kind with
    | .value => .ok (d.change (.blockMapping p start pairs (.atValue begin_ key t.stop)))
    | .key => .ok (d.change (.blockMapping p start lone (.atKey t.start.index t.stop)))
    | .blockEnd => .ok (d.close (.mapping p (Pair.toNodes lone) ⟨start, t.gap⟩))
    | _ => .error ⟨.missingKey, some .blockMapping, t.start⟩
  | .blockMapping p start pairs _ :: _ =>
    match t.kind with
    | .key => .ok (d.change (.blockMapping p start pairs (.atKey t.start.index t.stop)))
    | .blockEnd => .ok (d.close (.mapping p (Pair.toNodes pairs) ⟨start, t.gap⟩))
    | _ => .error ⟨.missingKey, some .blockMapping, t.start⟩
  | .flowSequence p start items _ :: _ =>
    match t.kind with
    | .flowEntry => .ok (d.change (.flowSequence p start items true))
    | .flowSequenceEnd => .ok (d.close (.sequence p items.reverse ⟨start, t.stop⟩))
    | _ => .error ⟨.missingBracket, some .flowSequence, t.start⟩
  | .flowMapping p start pairs (.atColon begin_ key) :: _ =>
    let lone := Pair.lone begin_ key key.stop :: pairs
    match t.kind with
    | .value => .ok (d.change (.flowMapping p start pairs (.atValue begin_ key t.stop)))
    | .flowEntry => .ok (d.change (.flowMapping p start lone (.between true)))
    | .flowMappingEnd => .ok (d.close (.mapping p (Pair.toNodes lone) ⟨start, t.stop⟩))
    | _ => .error ⟨.missingBrace, some .flowMapping, t.start⟩
  | .flowMapping p start pairs _ :: _ =>
    match t.kind with
    | .flowEntry => .ok (d.change (.flowMapping p start pairs (.between true)))
    | .flowMappingEnd => .ok (d.close (.mapping p (Pair.toNodes pairs) ⟨start, t.stop⟩))
    | _ => .error ⟨.missingBrace, some .flowMapping, t.start⟩
  | _ => .ok d

/-- A sequence without a block of its own, or a pair in a flow sequence, ends in front of a token
that does not go on with it. -/
def settle (d : Draft) (t : Token) : Draft :=
  match d.stack with
  | .blockSequence p start true items _ :: _ =>
    if t.kind = .blockEntry then d else d.close (.sequence p items.reverse ⟨start, t.gap⟩)
  | .flowPair (.atColon begin_ key) :: _ =>
    if t.kind = .value then d else d.close (Pair.lone begin_ key key.stop).toNode
  | _ => d

def behind (d : Draft) (t : Token) : Except Fault Draft :=
  let d := d.settle t
  match d.stack with
  | .blockSequence p start true items _ :: _ =>
    .ok (d.change (.blockSequence p start true items (some t.stop)))
  | .flowPair (.atColon begin_ key) :: _ => .ok (d.change (.flowPair (.atValue begin_ key t.stop)))
  | _ => d.separator t

def skipsNode : List Frame → Token.Kind → Bool
  | .blockSequence _ _ false .. :: _, k => k = .blockEntry || k = .blockEnd
  | .blockSequence _ _ true .. :: _, k =>
    k = .blockEntry || k = .key || k = .value || k = .blockEnd
  | .blockMapping .. :: _, k => k = .key || k = .value || k = .blockEnd
  | .flowMapping _ _ _ (.atKey ..) :: _, k => k = .value || k = .flowEntry || k = .flowMappingEnd
  | .flowMapping _ _ _ (.atValue ..) :: _, k => k = .flowEntry || k = .flowMappingEnd
  | .flowPair (.atKey ..) :: _, k => k = .value || k = .flowEntry || k = .flowSequenceEnd
  | .flowPair (.atValue ..) :: _, k => k = .flowEntry || k = .flowSequenceEnd
  | _, _ => false

def expectedAt : List Frame → Option Nat
  | .blockSequence _ _ _ _ (some dash) :: _ => some dash
  | .blockMapping _ _ _ (.atKey _ stop) :: _ | .flowMapping _ _ _ (.atKey _ stop) :: _ => some stop
  | .blockMapping _ _ _ (.atValue _ _ colon) :: _ => some colon
  | .flowMapping _ _ _ (.atValue _ _ colon) :: _ => some colon
  | .flowPair (.atKey _ stop) :: _ => some stop
  | .flowPair (.atValue _ _ colon) :: _ => some colon
  | _ => none

def isBare (d : Draft) : Bool :=
  match d.stack, d.root with
  | [], some (.bare ..) => true
  | _, _ => false

/-- Takes one token. A pair in a flow sequence that has no key loses the token that says so. -/
def feed (d : Draft) (t : Token) : Except Fault Draft :=
  let (block, indentless) := allows d.stack
  match d.stack with
  | .properties p :: rest =>
    match t.kind, p.anchor, p.tag with
    | .anchor name, none, _ =>
      .ok (d.change (.properties { p with anchor := some name, stop := t.stop }))
    | .tag tag, _, none =>
      .ok (d.change (.properties { p with tag := some (tag, t.start), stop := t.stop }))
    | _, _, _ => do
      let (properties, d) ← { d with stack := rest }.properties p
      let (block, indentless) := allows rest
      if beginsNode block indentless t.kind then return d.beginNode properties t
      (d.finish (.bare properties p.stop)).behind t
  | .flowSequence p start items true :: _ =>
    match t.kind with
    | .flowSequenceEnd => .ok (d.close (.sequence p items.reverse ⟨start, t.stop⟩))
    | .key => .ok (d.push (.flowPair (.atKey t.start.index t.stop)))
    | _ => d.node block indentless t
  | .flowMapping p start pairs (.between true) :: _ =>
    match t.kind with
    | .flowMappingEnd => .ok (d.close (.mapping p (Pair.toNodes pairs) ⟨start, t.stop⟩))
    | .key => .ok (d.change (.flowMapping p start pairs (.atKey t.start.index t.stop)))
    | _ =>
      (d.change (.flowMapping p start pairs (.atLoneKey t.start.index))).node block indentless t
  | [] => d.node block indentless t
  | stack =>
    match expectedAt stack with
    | none => d.behind t
    | some stop =>
      if skipsNode stack t.kind then
        let d := d.finish (.missing stop)
        match stack with
        | .flowPair (.atKey ..) :: _ => .ok d
        | _ => d.behind t
      else d.node block indentless t

end Draft

def defaultHandles : List (List Char × List Char) :=
  [("!".toList, "!".toList), ("!!".toList, "tag:yaml.org,2002:".toList)]

inductive Phase where
  | before (first : Bool) (version : Bool) (handles : List (List Char × List Char))
  | opened (d : Draft)
  | inside (d : Draft)
deriving Repr

structure Stream where
  documents : List Draft
  phase : Phase
deriving Repr

namespace Stream

def new : Stream := ⟨[], .before true false []⟩

def before (s : Stream) (first version : Bool) (handles : List (List Char × List Char))
    (t : Token) : Except Fault Stream :=
  let bare := !version && handles.isEmpty
  match t.kind with
  | .directive (.version major minor) =>
    if version then .error ⟨.repeatedVersion, none, t.start⟩
    else if major ≠ 1 || (minor ≠ 1 && minor ≠ 2) then .error ⟨.unsupportedVersion, none, t.start⟩
    else .ok { s with phase := .before first true handles }
  | .directive (.tag handle address) =>
    if handles.any (·.1 == handle) then .error ⟨.repeatedHandle, none, t.start⟩
    else .ok { s with phase := .before first version (handles ++ [(handle, address)]) }
  | .documentStart => .ok { s with phase := .opened (.new (handles ++ defaultHandles)) }
  | .streamEnd =>
    if bare then .ok s else .error ⟨.missingDocumentStart, none, t.start⟩
  | .documentEnd =>
    if bare && !first then .ok s
    else if bare then do
      return { s with phase := .inside (← (Draft.new defaultHandles).feed t) }
    else .error ⟨.missingDocumentStart, none, t.start⟩
  | _ =>
    if bare && first then do
      return { s with phase := .inside (← (Draft.new defaultHandles).feed t) }
    else .error ⟨.missingDocumentStart, none, t.start⟩

def endDocument (s : Stream) (d : Draft) (t : Token) : Stream × Except Fault Stream :=
  let s : Stream := ⟨d :: s.documents, .before false false []⟩
  (s, if t.kind = .documentEnd then .ok s else s.before false false [] t)

def feed (s : Stream) (t : Token) : Stream × Except Fault Stream :=
  match s.phase with
  | .before first version handles => (s, s.before first version handles t)
  | .opened d =>
    match t.kind with
    | .directive _ | .documentStart | .documentEnd | .streamEnd => s.endDocument d t
    | _ => (s, do return { s with phase := .inside (← d.feed t) })
  | .inside d =>
    if d.stack.isEmpty && d.root.isSome then s.endDocument d t
    else
      match d.feed t with
      | .error fault => (s, .error fault)
      | .ok d => if d.isBare then s.endDocument d t else (s, .ok { s with phase := .inside d })

def feedAll (s : Stream) : List Token → Stream × Option Fault
  | [] => (s, none)
  | t :: rest =>
    match s.feed t with
    | (left, .error fault) => (left, some fault)
    | (_, .ok s) => feedAll s rest

end Stream
end WorkflowLint.Yaml
