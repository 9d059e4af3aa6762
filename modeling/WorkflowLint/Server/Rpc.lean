import WorkflowLint.Json.Printer
import WorkflowLint.Json.Reader
import WorkflowLint.Server.Message

/-! Messages between client and server: requests, notifications and answers, each with a header
that gives its length. -/
namespace WorkflowLint.Server
open Text (Position)

inductive Incoming where
  | request (id : Json) (r : Request)
  | notification (n : Notification)
  | refused (id : Json) (code : Int) (message : String)
  | exit
  | ignored

namespace Incoming

def look (j : Json) : List String → Option Json
  | [] => some j
  | name :: rest =>
    match j with
    | .obj fields => (Json.field? name fields).bind (look · rest)
    | _ => none

def text? (j : Json) (names : List String) : Option String :=
  match look j names with
  | some (.str s) => some s
  | _ => none

def int? (j : Json) (names : List String) : Option Int :=
  match look j names with
  | some (.num (.int n)) => some n
  | _ => none

def nat? (j : Json) (names : List String) : Option Nat :=
  (int? j names).bind fun n => if 0 ≤ n then some n.toNat else none

def uri? (params : Json) : Option String := text? params ["textDocument", "uri"]

def version? (params : Json) : Option Int := int? params ["textDocument", "version"]

def position? (params : Json) : Option Position := do
  return ⟨← nat? params ["position", "line"], ← nat? params ["position", "character"]⟩

def changes? (params : Json) : Option (List String) :=
  match look params ["contentChanges"] with
  | some (.arr changes) => changes.mapM fun change => text? change ["text"]
  | _ => none

def request? (method : String) (params : Json) : Option Request :=
  match method with
  | "initialize" => some (.start ((look params ["initializationOptions"]).getD .null))
  | "shutdown" => some .shutdown
  | "textDocument/hover" => do return .hover (← uri? params) (← position? params)
  | "textDocument/completion" => do return .completion (← uri? params) (← position? params)
  | _ => none

def isRequest (method : String) : Bool :=
  ["initialize", "shutdown", "textDocument/hover", "textDocument/completion"].contains method

def notification? (method : String) (params : Json) : Option Notification :=
  match method with
  | "initialized" => some .initialized
  | "textDocument/didOpen" => do
    return .opened (← uri? params) (← version? params) (← text? params ["textDocument", "text"])
  | "textDocument/didChange" => do
    return .changed (← uri? params) (← version? params) (← changes? params)
  | "textDocument/didSave" => (uri? params).map .saved
  | "textDocument/didClose" => (uri? params).map .closed
  | _ => none

/-- A message with an id is a request. -/
def ofJson (j : Json) : Incoming :=
  let params := (look j ["params"]).getD .null
  match text? j ["method"], look j ["id"] with
  | some method, some id =>
    match request? method params with
    | some r => .request id r
    | none =>
      if isRequest method then .refused id (-32602) "Invalid params"
      else .refused id (-32601) "Method not found"
  | some "exit", none => .exit
  | some method, none =>
    match notification? method params with
    | some n => .notification n
    | none => .ignored
  | none, _ => .ignored

def ofText (text : String) : Incoming :=
  match Json.read? text with
  | some j => ofJson j
  | none => .refused .null (-32700) "Parse error"

end Incoming

def outgoing (fields : List (String × Json)) : Json := .ofFields (("jsonrpc", .str "2.0") :: fields)

def answer (id result : Json) : Json := outgoing [("id", id), ("result", result)]

def failure (id : Json) (code : Int) (message : String) : Json :=
  outgoing [("id", id),
    ("error", .ofFields [("code", .num (.int code)), ("message", .str message)])]

def publishMessage (p : Publication) : Json :=
  outgoing [("method", .str "textDocument/publishDiagnostics"), ("params", p.toJson)]

def State.receive (s : State) : Incoming → State × List Json
  | .request id r =>
    match s.request r with
    | (s, .ok reply) => (s, [answer id reply.toJson])
    | (s, .error refusal) => (s, [failure id refusal.code refusal.message])
  | .notification n =>
    let (s, published) := s.notify n
    (s, published.map publishMessage)
  | .refused id code message => (s, [failure id code message])
  | .exit | .ignored => (s, [])

def frame (j : Json) : String :=
  let body := j.compact
  "Content-Length: " ++ toString body.utf8ByteSize ++ "\r\n\r\n" ++ body

def contentLength? (line : String) : Option Nat :=
  let text := Text.trim line.toList
  let name := text.takeWhile (· ≠ ':')
  if Text.sameName (String.ofList name) "Content-Length" then
    Text.readDigits? 10 (Text.trim (text.drop (name.length + 1)))
  else none

end WorkflowLint.Server
