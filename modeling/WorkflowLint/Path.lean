/-! Paths into a value or a document. -/
namespace WorkflowLint

inductive Segment where
  | key (name : String)
  | index (i : Nat)
deriving DecidableEq, Repr

abbrev Path := List Segment

namespace Path

def withKey (path : Path) (name : String) : Path := path ++ [.key name]

def withIndex (path : Path) (i : Nat) : Path := path ++ [.index i]

def key? (path : Path) (i : Nat) : Option String :=
  match path[i]? with
  | some (.key name) => some name
  | _ => none

def index? (path : Path) (i : Nat) : Option Nat :=
  match path[i]? with
  | some (.index n) => some n
  | _ => none

/-- `.name` and `[3]`, one step after another. -/
def steps : Path → String
  | [] => ""
  | .key name :: rest => "." ++ name ++ steps rest
  | .index i :: rest => "[" ++ toString i ++ "]" ++ steps rest

def render (path : Path) : String := "$" ++ steps path

end Path
end WorkflowLint
