import WorkflowLint.Check.Scalar
import WorkflowLint.Expr.Coercion
import WorkflowLint.Schema.Shape
import WorkflowLint.Text.Blank

/-! A document beside its shape. Every node that is reached is compared with the shape of its
place, and what does not fit is reported. -/
namespace WorkflowLint

abbrev ContextFactory := Yaml.Value → Path → ContextProvider

namespace Check

structure Document where
  tree : SyntaxTree
  workflow : Yaml.Value
  contexts : ContextFactory

/-- What was found, and the shape of each node that was reached, both in the order in which they
were met. -/
structure Report where
  diagnostics : List Diagnostic
  shapes : List (Nat × Shape)

namespace Report

def empty : Report := ⟨[], []⟩

def append (a b : Report) : Report := ⟨a.diagnostics ++ b.diagnostics, a.shapes ++ b.shapes⟩

instance : Append Report := ⟨append⟩

def join (rs : List Report) : Report := ⟨rs.flatMap (·.diagnostics), rs.flatMap (·.shapes)⟩

def ofError (message : String) (span : Span) : Report := ⟨[.error message span], []⟩

def ofErrors (diagnostics : List Diagnostic) : Report := ⟨diagnostics, []⟩

def ofShape (id : Nat) (shape : Shape) : Report := ⟨[], [(id, shape)]⟩

def shape? (r : Report) (id : Nat) : Option Shape := (r.shapes.find? (·.1 == id)).map (·.2)

def size (r : Report) : Nat := (r.shapes.map (·.1)).eraseDups.length

end Report

/-! Scalars -/

def source (style : ScalarStyle) (raw value : String) (start : Nat) : List Char × Nat :=
  match style with
  | .singleQuoted | .doubleQuoted =>
    if 2 ≤ raw.utf8ByteSize then (raw.toList.tail.dropLast, start + 1) else (raw.toList, start)
  | .block => (value.toList, start)
  | .plain | .empty => (raw.toList, start)

/-- The text of a condition and the characters that it takes up. That of a block begins below its
first line. -/
def condition (style : ScalarStyle) (raw value : String) (start : Nat) : List Char × Span :=
  if style = .block then
    let text := raw.toList
    let header := (text.takeWhile (· ≠ '\n')).length
    let body := min (header + 1) text.length
    let indent := ((text.drop body).takeWhile Text.isBlank).length
    let first := start + body + indent
    let last := start + (Text.trimEnd text).length
    (value.toList, ⟨first, max last first⟩)
  else
    let (text, base) := source style raw value start
    (text, ⟨base, base + text.length⟩)

def isSingleMarker (text : List Char) : Bool :=
  let trimmed := Text.trim text
  match markers trimmed with
  | [.complete _ span] => span.start = 0 && span.stop = Text.byteLength trimmed
  | _ => false

def checkAllowed (value : String) (span : Span) (allowed : List AllowedValue) : List Diagnostic :=
  if allowed.any (·.value == value) then []
  else [.error ("'" ++ value ++ "' is not in the list of allowed values") span]

def knownTexts? : List MarkerValue → Option (List String)
  | [] => some []
  | ⟨_, .known v⟩ :: rest => (knownTexts? rest).map (v.display :: ·)
  | ⟨_, .indeterminate⟩ :: _ => none

def completeSpans (text : List Char) : List Span :=
  (markers text).filterMap fun
    | .complete _ span => some span
    | .unterminated _ => none

def interpolateFrom (text : List Char) (last : Nat) : List (Span × String) → List Char
  | [] => text.drop last
  | (span, value) :: rest =>
    let start := Text.charOffset text span.start
    (text.take start).drop last ++ value.toList ++
      interpolateFrom text (Text.charOffset text span.stop) rest

def interpolate (text : List Char) (values : List String) : List Char :=
  interpolateFrom text 0 ((completeSpans text).zip values)

/-- Allowed values and markers: a single marker is judged by its value, at the marker, and any
other text as it reads with the values put in. What is not known is not judged. -/
def checkEvaluated (text : List Char) (span : Span) (values : List MarkerValue)
    (allowed : List AllowedValue) : List Diagnostic :=
  let whole := match knownTexts? values with
    | none => []
    | some texts => checkAllowed (String.ofList (interpolate text texts)) span allowed
  match values with
  | [v] =>
    if isSingleMarker text then
      match v.value with
      | .known value => checkAllowed value.display v.span allowed
      | .indeterminate => []
    else whole
  | _ => whole

def scalarAgainst (provider : ContextProvider) (allowed : Option (List AllowedValue))
    (implicit : Bool) (style : ScalarStyle) (raw value : String) (span : Span) :
    List Diagnostic :=
  if hasMarkers raw.toList then
    let report := markersOf provider raw.toList span.start
    -- what the markers stand for is only compared if all of them stand for something
    if report.failed then report.diagnostics
    else
      report.diagnostics ++ match allowed with
        | some allowed =>
          checkEvaluated (source style raw value span.start).1 span report.values allowed
        | none => []
  else if implicit then
    let (text, place) := condition style raw value span.start
    (implicitExpression provider text place).2
  else
    match allowed with
    | some allowed => checkAllowed value span allowed
    | none => []

def scalarText (d : Document) (shape : Shape) (implicit : Bool) (path : Path)
    (style : ScalarStyle) (raw value : String) (span : Span) : List Diagnostic :=
  scalarAgainst (d.contexts d.workflow path) (shape.allowedValues d.workflow path) implicit style
    raw value span

def scalar (d : Document) (shape : Shape) (implicit : Bool) (path : Path) (n : SyntaxNode) :
    List Diagnostic :=
  match n.content with
  | .scalar style raw value =>
    if n.isNull then [] else scalarText d shape implicit path style raw value n.span
  | _ => [.error "Expected a scalar value" n.span]

/-! Collections -/

/-- The alternative for a node: one of its kind, or for a scalar a sequence, or for a null the
first one. -/
def choose? (n : SyntaxNode) (alternatives : List Shape) : Option Nat :=
  (alternatives.findIdx? (·.fits n)).or
    (if n.isScalar then
      (alternatives.findIdx? (·.isSequence)).or
        (if n.isNull && !alternatives.isEmpty then some 0 else none)
    else none)

def listed : List String → String
  | [] => "nothing"
  | [name] => name
  | names => ", ".intercalate names.dropLast ++ " or " ++ names.getLastD ""

def expected (alternatives : List Shape) : String :=
  listed (alternatives.map Shape.kindName).eraseDups

/-- Required names that no key has. They are reported at the key of the mapping, or else at its
first key, or else at the mapping. -/
def missing (tree : SyntaxTree) (n : SyntaxNode) (owner : Option Nat) (required : List String) :
    List Diagnostic :=
  let names := n.pairs.map fun (k, _) => tree.valueOf k
  let place := match owner.or (n.pairs.head?.map (·.1)) with
    | some key => tree.spanOf key
    | none => n.span
  (required.filter fun name => !names.contains name).map fun name =>
    .error ("Missing required key '" ++ name ++ "'") place

def markRepeated (tree : SyntaxTree) (seen : List String) :
    List (Nat × Nat) → List (Nat × Nat × Bool)
  | [] => []
  | (k, v) :: rest =>
    let name := tree.valueOf k
    (k, v, seen.contains name) :: markRepeated tree (name :: seen) rest

mutual

/-- Compares the node `id` with a shape. `owner` is the key that the node is the value of. -/
def visit (d : Document) (shape : Shape) (id : Nat) (path : Path) (owner : Option Nat) : Report :=
  match d.tree.node? id with
  | none => .empty
  | some n =>
    match shape with
    | .oneOf note alternatives =>
      match choose? n alternatives with
      | some i => visitNth d alternatives i id path owner
      | none =>
        .ofShape id (.oneOf note alternatives) ++
          .ofError ("Expected " ++ expected alternatives) n.span
    | .value note allowed implicit =>
      .ofShape id (.value note allowed implicit) ++
        .ofErrors (scalar d (.value note allowed implicit) implicit path n)
    | .sequence note item =>
      .ofShape id (.sequence note item) ++
        match n.content with
        | .sequence items =>
          .join (items.zipIdx.map fun (x, i) => visit d item x (path.withIndex i) none)
        | _ => if n.isNull then .empty else visit d item id path owner
    | .map note keys additional required =>
      .ofShape id (.map note keys additional required) ++
        match n.content with
        | .map pairs =>
          .join ((markRepeated d.tree [] pairs).map fun (k, v, isRepeated) =>
            let name := d.tree.valueOf k
            let span := d.tree.spanOf k
            if isRepeated then .ofError ("Key '" ++ name ++ "' is already defined") span
            else if keys.any (·.1 == name) then visitUnder d keys name k v path
            else if additional.isSome then visitOther d additional name k v path
            else .ofError ("Key '" ++ name ++ "' is not allowed") span) ++
          .ofErrors (missing d.tree n owner required)
        | _ => if n.isNull then .empty else .ofError "Expected a mapping" n.span
termination_by structural shape

def visitNth (d : Document) (shapes : List Shape) (i id : Nat) (path : Path)
    (owner : Option Nat) : Report :=
  match shapes, i with
  | [], _ => .empty
  | shape :: _, 0 => visit d shape id path owner
  | _ :: rest, i + 1 => visitNth d rest i id path owner
termination_by structural shapes

def visitUnder (d : Document) (keys : List (String × Shape)) (name : String) (k v : Nat)
    (path : Path) : Report :=
  match keys with
  | [] => .empty
  | (key, shape) :: rest =>
    if key == name then .ofShape k shape ++ visit d shape v (path.withKey name) (some k)
    else visitUnder d rest name k v path
termination_by structural keys

def visitOther (d : Document) (additional : Option Shape) (name : String) (k v : Nat)
    (path : Path) : Report :=
  match additional with
  | none => .empty
  | some shape => .ofShape k shape ++ visit d shape v (path.withKey name) (some k)
termination_by structural additional

end

def document (d : Document) (shape : Shape) : Report :=
  match d.tree.root with
  | none => .empty
  | some root => visit d shape root [] none

end Check
end WorkflowLint
