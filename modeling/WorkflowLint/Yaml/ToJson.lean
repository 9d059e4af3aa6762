import WorkflowLint.Json.Printer
import WorkflowLint.Yaml.Value

/-! Values of documents as values of expressions. -/
namespace WorkflowLint.Yaml.Value

def ofNumber : JsonNumber → Json
  | .float (.infinite _) | .float .nan => .null
  | n => .num n

def fieldName? : Value → Option String
  | .str s => some s
  | .bool b => some (if b then "true" else "false")
  | .num (.float (.infinite _)) | .num (.float .nan) => none
  | .num n => some n.render
  | _ => none

mutual

/-- A tag is the name of an only field. There is no value if some key cannot be a name. -/
def toJson? : Value → Option Json
  | .null => some .null
  | .bool b => some (.bool b)
  | .num n => some (ofNumber n)
  | .str s => some (.str s)
  | .seq items => (toJsonItems? items).map .arr
  | .map entries => (toJsonFields? entries).map Json.ofFields
  | .tagged tag value => (toJson? value).map fun v => .obj [(tag, v)]

def toJsonItems? : List Value → Option (List Json)
  | [] => some []
  | v :: rest => do return (← toJson? v) :: (← toJsonItems? rest)

def toJsonFields? : List (Value × Value) → Option (List (String × Json))
  | [] => some []
  | (k, v) :: rest => do return (← fieldName? k, ← toJson? v) :: (← toJsonFields? rest)

end

end WorkflowLint.Yaml.Value
