import WorkflowLint.Number.Binary64

/-! Values of the expression language, which are those of JSON. -/
namespace WorkflowLint

/-- Whole numbers that a 64-bit word holds are kept apart from all others. -/
inductive JsonNumber where
  | int (n : Int)
  | float (x : Binary64)
deriving DecidableEq, Repr

namespace JsonNumber

def toBinary64 : JsonNumber → Binary64
  | .int n => .ofInt n
  | .float x => x

def same : JsonNumber → JsonNumber → Bool
  | .int m, .int n => m == n
  | .float x, .float y => x.same y
  | _, _ => false

end JsonNumber

inductive Json where
  | null
  | bool (b : Bool)
  | num (n : JsonNumber)
  | str (s : String)
  | arr (items : List Json)
  | obj (fields : List (String × Json))
deriving Repr, Inhabited

namespace Json

mutual

def same : Json → Json → Bool
  | .null, .null => true
  | .bool a, .bool b => a == b
  | .num a, .num b => a.same b
  | .str a, .str b => a == b
  | .arr a, .arr b => sameItems a b
  | .obj a, .obj b => sameFields a b
  | _, _ => false

def sameItems : List Json → List Json → Bool
  | [], [] => true
  | a :: as, b :: bs => same a b && sameItems as bs
  | _, _ => false

def sameFields : List (String × Json) → List (String × Json) → Bool
  | [], [] => true
  | (m, a) :: as, (n, b) :: bs => m == n && same a b && sameFields as bs
  | _, _ => false

end

def insertField (name : String) (value : Json) : List (String × Json) → List (String × Json)
  | [] => [(name, value)]
  | (n, v) :: rest =>
    if name < n then (name, value) :: (n, v) :: rest
    else if name = n then (name, value) :: rest
    else (n, v) :: insertField name value rest

def ofFields (fields : List (String × Json)) : Json :=
  .obj (fields.foldl (fun all (name, value) => insertField name value all) [])

def field? (name : String) (fields : List (String × Json)) : Option Json :=
  (fields.find? (·.1 == name)).map (·.2)

end Json
end WorkflowLint
