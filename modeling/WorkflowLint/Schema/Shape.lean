import WorkflowLint.Path
import WorkflowLint.Tree.Basic
import WorkflowLint.Yaml.Value

/-! Shapes: what a document may hold at each of its places. -/
namespace WorkflowLint

structure AllowedValue where
  value : String
  description : Option String
deriving DecidableEq, Repr

inductive ProviderError where
  | missingValue (path : Path)
deriving DecidableEq, Repr

def ProviderError.message : ProviderError → String
  | .missingValue path => "no value at " ++ path.render

abbrev ValueProvider := Yaml.Value → Path → Except ProviderError (List AllowedValue)

structure Shape.Note where
  description : Option String
  provider : Option ValueProvider

inductive Shape where
  /-- A scalar, which is an expression even without delimiters if it is `implicit`. -/
  | value (note : Shape.Note) (allowed : List AllowedValue) (implicit : Bool)
  | sequence (note : Shape.Note) (item : Shape)
  | map (note : Shape.Note) (keys : List (String × Shape)) (additional : Option Shape)
      (required : List String)
  | oneOf (note : Shape.Note) (alternatives : List Shape)

namespace Shape

def Note.none : Note := ⟨.none, .none⟩

instance : Inhabited Shape := ⟨.value .none [] false⟩

def scalar : Shape := .value .none [] false

def allowed (values : List AllowedValue) : Shape := .value .none values false

def expression : Shape := .value .none [] true

def list (item : Shape) : Shape := .sequence .none item

def insertKey (keys : List (String × Shape)) (entry : String × Shape) : List (String × Shape) :=
  if keys.any (·.1 == entry.1) then keys.map fun e => if e.1 == entry.1 then entry else e
  else keys ++ [entry]

def closedMap (keys : List (String × Shape)) : Shape :=
  .map .none (keys.foldl insertKey []) .none []

def openMap (value : Shape) : Shape := .map .none [] (some value) []

def choice (alternatives : List Shape) : Shape := .oneOf .none alternatives

def note : Shape → Note
  | .value note .. | .sequence note _ | .map note .. | .oneOf note _ => note

def withNote (f : Note → Note) : Shape → Shape
  | .value note allowed implicit => .value (f note) allowed implicit
  | .sequence note item => .sequence (f note) item
  | .map note keys additional required => .map (f note) keys additional required
  | .oneOf note alternatives => .oneOf (f note) alternatives

def describe (shape : Shape) (text : String) : Shape :=
  shape.withNote fun note => { note with description := some text }

def provide (shape : Shape) (provider : ValueProvider) : Shape :=
  shape.withNote fun note => { note with provider := some provider }

def require (shape : Shape) (names : List String) : Shape :=
  match shape with
  | .map note keys additional required => .map note keys additional (required ++ names)
  | shape => shape

def others (shape value : Shape) : Shape :=
  match shape with
  | .map note keys _ required => .map note keys (some value) required
  | shape => shape

def description (shape : Shape) : Option String := shape.note.description

def provider (shape : Shape) : Option ValueProvider := shape.note.provider

def isScalar : Shape → Bool
  | .value .. => true
  | _ => false

def isSequence : Shape → Bool
  | .sequence .. => true
  | _ => false

def kindName : Shape → String
  | .value .. => "a scalar value"
  | .sequence .. => "a sequence"
  | .map .. => "a mapping"
  | .oneOf .. => "one of several shapes"

mutual

def fits (n : SyntaxNode) : Shape → Bool
  | .value .. => n.isScalar
  | .sequence .. => n.isSequence
  | .map .. => n.isMap
  | .oneOf _ alternatives => anyFits n alternatives

def anyFits (n : SyntaxNode) : List Shape → Bool
  | [] => false
  | s :: rest => fits n s || anyFits n rest

end

def key? (shape : Shape) (name : String) : Option Shape :=
  match shape with
  | .map _ keys additional _ => ((keys.find? (·.1 == name)).map (·.2)).or additional
  | _ => none

/-- The values that a scalar may have; `none` if it may have any. Values from a provider count only
if it has some to give. -/
def allowedValues (shape : Shape) (workflow : Yaml.Value) (path : Path) :
    Option (List AllowedValue) :=
  match shape with
  | .value note allowed _ =>
    match note.provider.bind fun provide => (provide workflow path).toOption with
    | some more => some (allowed ++ more)
    | none => if allowed.isEmpty then none else some allowed
  | _ => none

end Shape
end WorkflowLint
