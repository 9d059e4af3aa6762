import WorkflowLint.Server.State

/-! The messages of the server as JSON. -/
namespace WorkflowLint.Server
open Text (Position Range)

def serverName : String := "actions-workflow-lsp"

def serverVersion : String := "0.1.0"

def natJson (n : Nat) : Json := .num (.int n)

def textJson (s : Option String) (name : String) : List (String × Json) :=
  (s.map fun s => (name, .str s)).toList

def positionJson (p : Position) : Json :=
  .ofFields [("line", natJson p.line), ("character", natJson p.column)]

def rangeJson (r : Range) : Json :=
  .ofFields [("start", positionJson r.start), ("end", positionJson r.stop)]

def severityCode : Severity → Nat
  | .error => 1
  | .warning => 2
  | .information => 3
  | .hint => 4

def Finding.toJson (f : Finding) : Json :=
  .ofFields [("range", rangeJson f.range), ("severity", natJson (severityCode f.severity)),
    ("source", .str serverName), ("message", .str f.message)]

def Publication.toJson (p : Publication) : Json :=
  .ofFields ([("uri", .str p.uri), ("diagnostics", .arr (p.findings.map Finding.toJson))] ++
    (p.version.map fun v => ("version", .num (.int v))).toList)

def completionCode : Completion.Kind → Nat
  | .key => 10
  | .value => 20
  | .context => 9
  | .function => 3
  | .property => 5

def completionJson (c : Completion) : Json :=
  .ofFields ([("label", .str c.label), ("kind", natJson (completionCode c.kind))] ++
    textJson c.description "detail")

/-- Whole texts are sent, and a dot or a blank asks for completion. -/
def capabilities : Json :=
  .ofFields
    [("capabilities", .ofFields
      [("textDocumentSync", natJson 1),
       ("hoverProvider", .bool true),
       ("completionProvider", .ofFields [("triggerCharacters", .arr [.str ".", .str " "])])]),
     ("serverInfo", .ofFields [("name", .str serverName), ("version", .str serverVersion)])]

def Reply.toJson : Reply → Json
  | .capabilities => Server.capabilities
  | .done | .hover none | .completion none => .null
  | .hover (some text) =>
    .ofFields [("contents", .ofFields [("kind", .str "markdown"), ("value", .str text)])]
  | .completion (some items) => .arr (items.map completionJson)

def Refusal.code : Refusal → Int
  | .notInitialized => -32002
  | .invalidRequest => -32600

def Refusal.message : Refusal → String
  | .notInitialized => "Server not initialized"
  | .invalidRequest => "Invalid request"

end WorkflowLint.Server
