import WorkflowLint.Json.Value
import WorkflowLint.Workflow.Contexts

/-! The options of a client, which describe the repository. -/
namespace WorkflowLint.Repository

def unknown : Repository := ⟨none, none, none, none⟩

def text? : Json → Option (Option String)
  | .null => some none
  | .str s => some (some s)
  | _ => none

def textItems? : List Json → Option (List String)
  | [] => some []
  | .str s :: rest => (textItems? rest).map (s :: ·)
  | _ => none

def texts? : Json → Option (Option (List String))
  | .null => some none
  | .arr items => (textItems? items).map some
  | _ => none

def ofParts? (owner name secrets vars : Json) : Option Repository := do
  return ⟨← text? owner, ← text? name, ← texts? secrets, ← texts? vars⟩

/-- Options are an object, of which other fields are left alone, or an array of at most four in
the order of the fields. -/
def ofJson? : Json → Option Repository
  | .obj fields =>
    let get (name : String) := (Json.field? name fields).getD .null
    ofParts? (get "owner") (get "repository") (get "secrets") (get "variables")
  | .arr items =>
    let get (i : Nat) := items[i]?.getD .null
    if items.length ≤ 4 then ofParts? (get 0) (get 1) (get 2) (get 3) else none
  | _ => none

def ofOptions (options : Json) : Repository := (ofJson? options).getD unknown

end WorkflowLint.Repository
