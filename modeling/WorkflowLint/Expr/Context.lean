import WorkflowLint.Expr.Syntax
import WorkflowLint.Json.Value
import WorkflowLint.Path
import WorkflowLint.Text.Ascii

/-! What is known about the contexts that an expression can name. -/
namespace WorkflowLint

inductive Resolution where
  | known (value : Json)
  | indeterminate
  | unknown
deriving Repr, Inhabited

/-- The contents of a context, as far as they are known. An open object may have more fields than
those listed, and anything is possible below a dynamic value. -/
inductive ContextValue where
  | known (value : Json)
  | object (fields : List (String × ContextValue)) (isOpen : Bool)
  | dynamic
deriving Repr, Inhabited

/-- The entry of a name: the one of exactly this name, or else the first one of the name in
another case. -/
def lookupName? {α : Type} (name : String) (entries : List (String × α)) : Option α :=
  match entries.find? (·.1 == name) with
  | some e => some e.2
  | none => (entries.find? (Text.sameName ·.1 name)).map (·.2)

namespace Json

def step? (v : Json) (s : Segment) : Option Json :=
  match v, s with
  | .obj fields, .key name => lookupName? name fields
  | .arr items, .index i => items[i]?
  | _, _ => none

def at? (v : Json) : Path → Option Json
  | [] => some v
  | s :: rest => (v.step? s).bind (·.at? rest)

def indexesArray (v : Json) (path : Path) : Bool :=
  match path.getLast?, v.at? path.dropLast with
  | some (.index _), some (.arr _) => true
  | _, _ => false

/-- A place past the end of an array holds null. -/
def resolve (v : Json) (path : Path) : Resolution :=
  match v.at? path with
  | some w => .known w
  | none => if v.indexesArray path then .known .null else .unknown

def removeField (name : String) : List (String × Json) → Option Json × List (String × Json)
  | [] => (none, [])
  | (n, v) :: rest =>
    if n = name then (some v, rest)
    else
      let (found, left) := removeField name rest
      (found, (n, v) :: left)

/-- The value taken out of an object by a name: that of exactly this name, or else that of the
first name left that is the same in another case. -/
def takeNamed? (name : String) (fields : List (String × Json)) : Option Json :=
  match removeField name fields with
  | (some v, _) => some v
  | (none, left) =>
    ((left.map (·.1)).find? (Text.sameName · name)).bind fun other => (removeField other left).1

def take (v : Json) (s : Segment) : Json :=
  match v, s with
  | .obj fields, .key name => (takeNamed? name fields).getD .null
  | .arr items, .index i => if h : i < items.length then items[i] else .null
  | _, _ => .null

def navigate (v : Json) : Path → Json
  | [] => v
  | s :: rest => (v.take s).navigate rest

end Json

namespace ContextValue

/-- A name that comes again replaces the value and keeps the place. -/
def insertField (name : String) (value : ContextValue) :
    List (String × ContextValue) → List (String × ContextValue)
  | [] => [(name, value)]
  | (n, v) :: rest =>
    if n = name then (n, value) :: rest else (n, v) :: insertField name value rest

def insertAll (fields : List (String × ContextValue)) (more : List (String × ContextValue)) :
    List (String × ContextValue) :=
  more.foldl (fun all (name, value) => insertField name value all) fields

def closed (fields : List (String × ContextValue)) : ContextValue :=
  .object (insertAll [] fields) false

def anyFields : ContextValue := .object [] true

def names (names : List String) : ContextValue := closed (names.map fun n => (n, .dynamic))

mutual

def whole? : ContextValue → Option Json
  | .known v => some v
  | .dynamic => none
  | .object fields isOpen => if isOpen then none else (wholeFields? fields).map Json.ofFields

def wholeFields? : List (String × ContextValue) → Option (List (String × Json))
  | [] => some []
  | (name, v) :: rest =>
    match v.whole?, wholeFields? rest with
    | some w, some ws => some ((name, w) :: ws)
    | _, _ => none

end

def resolve (c : ContextValue) (path : Path) : Resolution :=
  match path with
  | [] => match c.whole? with
    | some v => .known v
    | none => .indeterminate
  | s :: rest => match c with
    | .dynamic => .indeterminate
    | .known v => v.resolve (s :: rest)
    | .object fields isOpen =>
      let child := match s with
        | .key name => lookupName? name fields
        | .index _ => none
      match child with
      | some child => child.resolve rest
      | none => if isOpen then .indeterminate else .unknown

def fieldNames (c : ContextValue) (path : Path) : List String :=
  match c, path with
  | .object fields _, [] => fields.map (·.1)
  | .object fields _, .key name :: rest =>
    match lookupName? name fields with
    | some child => child.fieldNames rest
    | none => []
  | .known v, path =>
    match v.at? path with
    | some (.obj fields) => fields.map (·.1)
    | _ => []
  | _, _ => []
termination_by path

end ContextValue

abbrev ContextProvider := String → Option ContextValue

namespace Expr

abbrev Resolver := String → Path → Resolution

def Resolver.ofProvider (provider : ContextProvider) : Resolver := fun name path =>
  match provider name with
  | some c => c.resolve path
  | none => .unknown

mutual

def contextNames : Expr → List String
  | .literal .. => []
  | .context _ name => [name]
  | .property _ target _ => contextNames target
  | .index _ target i => contextNames target ++ contextNames i
  | .call _ _ args => contextNamesAll args
  | .apply _ callee args => contextNames callee ++ contextNamesAll args
  | .binary _ _ left right => contextNames left ++ contextNames right
  | .not _ operand => contextNames operand

def contextNamesAll : List Expr → List String
  | [] => []
  | e :: es => contextNames e ++ contextNamesAll es

end

structure Snapshot where
  contexts : List (String × Option ContextValue)

namespace Snapshot

def add (provider : ContextProvider) (s : Snapshot) (name : String) : Snapshot :=
  if s.contexts.any (·.1 == name) then s else ⟨s.contexts ++ [(name, provider name)]⟩

def capture (provider : ContextProvider) (e : Expr) : Snapshot :=
  (contextNames e).foldl (add provider) ⟨[]⟩

def resolver (s : Snapshot) : Resolver := fun name path =>
  match s.contexts.find? (·.1 == name) with
  | some (_, some c) => c.resolve path
  | _ => .unknown

end Snapshot
end Expr
end WorkflowLint
