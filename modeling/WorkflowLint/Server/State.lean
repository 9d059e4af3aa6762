import WorkflowLint.Completion
import WorkflowLint.Hover
import WorkflowLint.Schema.Workflow
import WorkflowLint.Server.Config
import WorkflowLint.Workflow.Contexts

/-! The language server: its open documents, and what becomes of them as messages arrive. -/
namespace WorkflowLint.Server
open Text (LineIndex Position Range)

structure OpenDocument where
  text : String
  version : Int
  lines : LineIndex
  analysis : Analysis

structure Finding where
  range : Range
  severity : Severity
  message : String
deriving DecidableEq, Repr

structure Publication where
  uri : String
  findings : List Finding
  version : Option Int
deriving DecidableEq, Repr

inductive Phase where
  | new
  | running
  | stopped
deriving DecidableEq, Repr

structure State where
  phase : Phase
  repository : Repository
  documents : List (String × OpenDocument)

inductive Request where
  | start (options : Json)
  | shutdown
  | hover (uri : String) (place : Position)
  | completion (uri : String) (place : Position)

inductive Notification where
  | initialized
  | opened (uri : String) (version : Int) (text : String)
  | changed (uri : String) (version : Int) (texts : List String)
  | saved (uri : String)
  | closed (uri : String)
deriving DecidableEq, Repr

inductive Reply where
  | capabilities
  | done
  | hover (text : Option String)
  | completion (items : Option (List Completion))
deriving DecidableEq, Repr

inductive Refusal where
  | notInitialized
  | invalidRequest
deriving DecidableEq, Repr

inductive Action where
  | store (uri : String) (doc : OpenDocument)
  | remove (uri : String)
  | publish (p : Publication)

namespace Finding

def ofDiagnostic (lines : LineIndex) (d : Diagnostic) : Finding :=
  ⟨lines.range d.span, d.severity, d.message⟩

end Finding

namespace OpenDocument

def ofText (repository : Repository) (version : Int) (text : String) : OpenDocument :=
  ⟨text, version, .ofText text.toList,
    .ofText Schema.workflow (Workflow.contexts repository) text.toList⟩

def findings (doc : OpenDocument) : List Finding :=
  doc.analysis.diagnostics.map (Finding.ofDiagnostic doc.lines)

def overflowed (doc : OpenDocument) : Bool := Check.overflowed doc.analysis.report.diagnostics

end OpenDocument

namespace State

def initial : State := ⟨.new, .unknown, []⟩

def document? (s : State) (uri : String) : Option OpenDocument :=
  (s.documents.find? (·.1 == uri)).map (·.2)

def removeDocument (s : State) (uri : String) : State :=
  { s with documents := s.documents.filter (·.1 != uri) }

def storeDocument (s : State) (uri : String) (doc : OpenDocument) : State :=
  { s with documents := (uri, doc) :: (s.removeDocument uri).documents }

def arrival (s : State) (uri : String) (version : Int) (text : String) : List Action :=
  let doc := OpenDocument.ofText s.repository version text
  [.store uri doc, .publish ⟨uri, doc.findings, some version⟩]

/-- What a notification leads to, in order. Of several changes the first one counts. -/
def actions (s : State) : Notification → List Action
  | .opened uri version text => s.arrival uri version text
  | .changed uri version (text :: _) => s.arrival uri version text
  | .closed uri => [.remove uri, .publish ⟨uri, [], none⟩]
  | .changed _ _ [] | .initialized | .saved _ => []

def perform (s : State) : Action → State × List Publication
  | .store uri doc => (s.storeDocument uri doc, [])
  | .remove uri => (s.removeDocument uri, [])
  | .publish p => (s, [p])

def performAll (s : State) : List Action → State × List Publication
  | [] => (s, [])
  | action :: rest =>
    let (s, now) := s.perform action
    let (s, later) := performAll s rest
    (s, now ++ later)

def notify (s : State) (n : Notification) : State × List Publication :=
  if s.phase = .running then s.performAll (s.actions n) else (s, [])

def hover (s : State) (uri : String) (place : Position) : Option String :=
  (s.document? uri).bind fun doc => doc.analysis.hover? (doc.lines.offset place)

def complete (s : State) (uri : String) (place : Position) : Option (List Completion) :=
  (s.document? uri).map fun doc =>
    doc.analysis.complete (Workflow.contexts s.repository) (doc.lines.offset place)

def request (s : State) (r : Request) : State × Except Refusal Reply :=
  match s.phase, r with
  | .new, .start options =>
    ({ s with phase := .running, repository := .ofOptions options }, .ok .capabilities)
  | .new, _ => (s, .error .notInitialized)
  | .running, .shutdown => ({ s with phase := .stopped }, .ok .done)
  | .running, .hover uri place => (s, .ok (.hover (s.hover uri place)))
  | .running, .completion uri place => (s, .ok (.completion (s.complete uri place)))
  | .running, .start _ | .stopped, _ => (s, .error .invalidRequest)

/-- The server is no longer there once it has read such a document. -/
def overflowed (s : State) : Bool := s.documents.any (·.2.overflowed)

end State
end WorkflowLint.Server
