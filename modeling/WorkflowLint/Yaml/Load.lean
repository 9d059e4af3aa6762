import WorkflowLint.Yaml.Stream
import WorkflowLint.Yaml.Value

/-! The one document of a text, and its value. -/
namespace WorkflowLint.Yaml

def isAllowed (c : Char) : Bool :=
  let n := c.toNat
  n == 9 || n == 10 || n == 13 || (0x20 ≤ n && n ≤ 0x7E) || n == 0x85 || (0xA0 ≤ n && n ≤ 0xD7FF) ||
    (0xE000 ≤ n && n ≤ 0xFFFD && n != 0xFEFF) || 0x10000 ≤ n

def dropMark : List Char → List Char
  | '\uFEFF' :: rest => rest
  | text => text

def badCharacter? (index : Nat) : List Char → Option Nat
  | [] => none
  | c :: rest => if isAllowed c then badCharacter? (index + c.utf8Size) rest else some index

/-- The document of a text. A text without one is a document with no contents, and a text of
several, or with anything wrong behind the first one, is refused. -/
def document (text : List Char) : Except YamlError Draft :=
  let body := dropMark text
  match badCharacter? (if body.length < text.length then 3 else 0) body with
  | some index => .error (.controlCharacter index)
  | none =>
    let tokens := Tokens.scan false body
    let (stream, fault) := Stream.new.feedAll tokens.delivered
    let fault := fault.or tokens.fault
    match stream.documents.reverse, stream.phase, fault with
    | [], .before .., none => .ok (.new [])
    | [], .before .., some fault => .error (.fault fault)
    | [], .opened d, _ | [], .inside d, _ =>
      match d.unknown, fault with
      | some mark, _ => .error (.unknownAnchor mark)
      | none, some fault => .error (.fault fault)
      | none, none => .ok d
    | d :: rest, phase, fault =>
      match d.unknown, rest, phase, fault with
      | some mark, _, _, _ => .error (.unknownAnchor mark)
      | none, [], .before .., none => .ok d
      | none, _, _, _ => .error .manyDocuments

def check? (text : List Char) : Option YamlError :=
  match document text with
  | .error e => some e
  | .ok _ => none

namespace Node

mutual

def steps : Node → Nat
  | .sequence _ items _ => stepsOfItems items + 2
  | .mapping _ pairs _ => stepsOfPairs pairs + 2
  | _ => 1

def stepsOfItems : List Node → Nat
  | [] => 0
  | n :: rest => steps n + stepsOfItems rest

def stepsOfPairs : List (Node × Node) → Nat
  | [] => 0
  | (k, v) :: rest => steps k + steps v + stepsOfPairs rest

end

mutual

def anchored : Node → List (Nat × Node)
  | .bare p stop => own p (.bare p stop)
  | .scalar p style text span => own p (.scalar p style text span)
  | .alias .. => []
  | .sequence p items span => own p (.sequence p items span) ++ anchoredItems items
  | .mapping p pairs span => own p (.mapping p pairs span) ++ anchoredPairs pairs

def anchoredItems : List Node → List (Nat × Node)
  | [] => []
  | n :: rest => anchored n ++ anchoredItems rest

def anchoredPairs : List (Node × Node) → List (Nat × Node)
  | [] => []
  | (k, v) :: rest => anchored k ++ anchored v ++ anchoredPairs rest

def own (p : Properties) (n : Node) : List (Nat × Node) :=
  match p.anchor with
  | some id => [(id, n)]
  | none => []

end

end Node

namespace Value

def tagName (tag : List Char) : String :=
  let bare := match tag with
    | '!' :: c :: rest => c :: rest
    | tag => tag
  let bare := match bare with
    | '!' :: c :: rest => c :: rest
    | bare => bare
  String.ofList ('!' :: bare)

/-- A value with the tag of its node. Only a tag that begins with a bang is kept. -/
def withTag (p : Properties) (v : Value) : Value :=
  match p.tag with
  | some tag => if tag.toList.head? = some '!' then .tagged (tagName tag.toList) v else v
  | none => v

def ofText? (style : Style) (text : String) : Option Value :=
  if style = .plain then Plain.resolve? text else some (.str text)

/-- The value of a scalar. A tag of the core schema decides what the text has to be, and under any
other one that is not the document's own it is just a text. -/
def ofScalar? (p : Properties) (style : Style) (text : String) : Option Value :=
  match p.tag with
  | none => ofText? style text
  | some tag =>
    if tag.toList.head? = some '!' then (ofText? style text).map (withTag p)
    else if tag = "tag:yaml.org,2002:bool" then (Plain.bool? text).map .bool
    else if tag = "tag:yaml.org,2002:int" then
      match Plain.whole text.toList with
      | .fits n => some (.num (.int n))
      | _ => none
    else if tag = "tag:yaml.org,2002:float" then
      (Plain.float? text.toList).map fun x => .num (.float x)
    else if tag = "tag:yaml.org,2002:null" then if Plain.isNull text then some .null else none
    else some (.str text)

structure Loader where
  anchored : List (Nat × Node)
  limit : Nat

abbrev Load := StateT Nat Option

def Loader.follow (loader : Loader) : Node → Load Node
  | .alias id _ => do
    modify (· + 1)
    if loader.limit < (← get) then failure
    match id.bind fun id => loader.anchored.reverse.find? (·.1 == id) with
    | some (_, n) => return n
    | none => failure
  | n => return n

def insertNew? (entries : List (Value × Value)) (key value : Value) :
    Option (List (Value × Value)) :=
  if entries.any fun e => e.1.same key then none else some (entries ++ [(key, value)])

def read (loader : Loader) : Nat → Node → Load Value
  | 0, n => do
    match ← loader.follow n with
    | .bare p _ => StateT.lift (ofScalar? p .plain "")
    | .scalar p style text _ => StateT.lift (ofScalar? p style text)
    | _ => failure
  | depth + 1, n => do
    match ← loader.follow n with
    | .bare p _ => StateT.lift (ofScalar? p .plain "")
    | .scalar p style text _ => StateT.lift (ofScalar? p style text)
    | .alias .. => failure
    | .sequence p items _ => return withTag p (.seq (← items.mapM (read loader depth)))
    | .mapping p pairs _ =>
      let entries ← pairs.foldlM (fun entries (k, v) => do
        let key ← read loader depth k
        let value ← read loader depth v
        StateT.lift (insertNew? entries key value)) []
      return withTag p (.map entries)

def maxDepth : Nat := 128

def ofDraft? (d : Draft) : Option Value :=
  match d.root with
  | none => some .null
  | some root =>
    let loader : Loader := ⟨root.anchored, root.steps * 100⟩
    ((read loader maxDepth root).run 0).map (·.1)

def ofDocument? (text : List Char) : Option Value :=
  match document text with
  | .error _ => none
  | .ok d => ofDraft? d

end Value
end WorkflowLint.Yaml
