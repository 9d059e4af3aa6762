import WorkflowLint.Expr.Coercion
import WorkflowLint.Expr.Error
import WorkflowLint.Json.Printer
import WorkflowLint.Json.Reader
import WorkflowLint.Text.Ascii

/-! Functions that expressions can call. -/
namespace WorkflowLint.Expr

/-- A value, or the knowledge that there will be one that cannot be told in advance. -/
inductive Evaluation where
  | known (value : Json)
  | indeterminate
deriving Repr, Inhabited

inductive CallError where
  | invalidJson
  | invalidFormat (template : String)
  | missingFormatArgument (index : Nat)
  | expectedString (function : String)
  | overflow
deriving DecidableEq, Repr

def CallError.message : CallError → String
  | .invalidJson => "invalid JSON"
  | .invalidFormat template => "invalid format string '" ++ template ++ "'"
  | .missingFormatArgument i =>
    "format argument \x7b" ++ toString i ++ "\x7d is out of range"
  | .expectedString function => function ++ " expects a string argument"
  | .overflow => overflowMessage

def CallError.failure : CallError → Failure
  | .invalidJson | .invalidFormat _ | .missingFormatArgument _ | .expectedString _ => .invalid
  | .overflow => .overflow

abbrev Call := List Json → Except CallError Evaluation

/-- A function with the number of arguments it takes; `most` is none if there is no limit. -/
structure Function where
  name : String
  least : Nat
  most : Option Nat
  call : Call

def Function.accepts (f : Function) (count : Nat) : Bool :=
  decide (f.least ≤ count) && f.most.all (count ≤ ·)

structure Functions where
  entries : List Function

namespace Functions

def empty : Functions := ⟨[]⟩

def get? (fs : Functions) (name : String) : Option Function :=
  fs.entries.find? (Text.sameName ·.name name)

def register (fs : Functions) (f : Function) : Functions :=
  ⟨fs.entries.filter (!Text.sameName ·.name f.name) ++ [f]⟩

def names (fs : Functions) : List String :=
  (fs.entries.map (·.name)).mergeSort (fun a b => decide (a ≤ b))

end Functions

namespace Builtin

def known (v : Json) : Except CallError Evaluation := .ok (.known v)

def lowered (v : Json) : List Char := (Text.lowercase v.display).toList

def isInfix (part : List Char) : List Char → Bool
  | [] => part.isEmpty
  | c :: cs => part.isPrefixOf (c :: cs) || isInfix part cs

def contains : Call
  | [.arr items, x] => known (.bool (items.any (·.looseEq x)))
  | [text, part] => known (.bool (isInfix (lowered part) (lowered text)))
  | _ => known .null

def startsWith : Call
  | [text, part] => known (.bool ((lowered part).isPrefixOf (lowered text)))
  | _ => known .null

def endsWith : Call
  | [text, part] => known (.bool ((lowered part).isSuffixOf (lowered text)))
  | _ => known .null

def wordCount : Nat := twoTo 64

def placeholder? : List Char → Option (List Char × List Char)
  | [] => none
  | c :: cs =>
    if c = '\x7d' then some ([], cs)
    else if c.isDigit then (placeholder? cs).map fun (digits, rest) => (c :: digits, rest)
    else none

theorem placeholder?_length {text digits rest : List Char}
    (h : placeholder? text = some (digits, rest)) : rest.length < text.length := by
  induction text generalizing digits with
  | nil => simp [placeholder?] at h
  | cons c cs ih =>
    unfold placeholder? at h
    split at h
    · simp only [Option.some.injEq, Prod.mk.injEq] at h
      simp [← h.2]
    · split at h
      · obtain ⟨⟨ds, r⟩, hr, he⟩ := Option.map_eq_some_iff.1 h
        simp only [Prod.mk.injEq] at he
        have := ih (he.2 ▸ hr)
        simp only [List.length_cons]
        omega
      · simp at h

def placeholderIndex? (digits : List Char) : Option Nat :=
  let n := Decimal.ofDigits digits
  if digits.isEmpty ∨ wordCount ≤ n then none else some n

/-- The argument that a placeholder stands for. The template is the first argument of the call,
so that the place of an argument in it is one more than its index, which may be too much for a
word. -/
def formatArgument (args : List Json) (index : Nat) : Except CallError Json :=
  if index + 1 < wordCount then
    match args[index + 1]? with
    | some v => .ok v
    | none => .error (.missingFormatArgument index)
  else .error .overflow

/-- A template filled in from the arguments of its call. Braces written twice stand for one. -/
def fill (template : String) (args : List Json) : List Char → Except CallError (List Char)
  | [] => .ok []
  | '\x7b' :: '\x7b' :: rest => (fill template args rest).map ('\x7b' :: ·)
  | '\x7d' :: '\x7d' :: rest => (fill template args rest).map ('\x7d' :: ·)
  | c :: cs =>
    if c = '\x7b' then
      match _h : placeholder? cs with
      | none => .error (.invalidFormat template)
      | some (digits, rest) =>
        match placeholderIndex? digits with
        | none => .error (.invalidFormat template)
        | some i =>
          match formatArgument args i with
          | .error e => .error e
          | .ok v => (fill template args rest).map (v.display.toList ++ ·)
    else if c = '\x7d' then .error (.invalidFormat template)
    else (fill template args cs).map (c :: ·)
termination_by text => text.length
decreasing_by
  · simp only [List.length_cons]
    omega
  · simp only [List.length_cons]
    omega
  · have := placeholder?_length ‹_›
    simp only [List.length_cons]
    omega
  · simp only [List.length_cons]
    omega

def format : Call := fun args =>
  let template := (args.head?.getD .null).display
  (fill template args template.toList).map fun text => .known (.str (String.ofList text))

def join : Call := fun args =>
  let separator := match args[1]? with
    | none => ","
    | some v => v.display
  match args.head?.getD .null with
  | .arr items => known (.str (separator.intercalate (items.map Json.display)))
  | v => known (.str v.display)

def toJson : Call := fun args => known (.str (Json.pretty 0 (args.head?.getD .null)))

def fromJson : Call := fun args =>
  match args.head? with
  | some (.str text) =>
    match Json.read? (String.ofList (Text.trim text.toList)) with
    | some v => known v
    | none => .error .invalidJson
  | _ => .error (.expectedString "fromJson")

def always (b : Bool) : Call := fun _ => known (.bool b)

end Builtin

/-- The functions of every workflow. What files hash to cannot be told in advance, and a job is
taken to go well. -/
def Functions.builtins : Functions where
  entries := [
    ⟨"contains", 2, some 2, Builtin.contains⟩,
    ⟨"startsWith", 2, some 2, Builtin.startsWith⟩,
    ⟨"endsWith", 2, some 2, Builtin.endsWith⟩,
    ⟨"format", 1, none, Builtin.format⟩,
    ⟨"join", 1, some 2, Builtin.join⟩,
    ⟨"toJson", 1, some 1, Builtin.toJson⟩,
    ⟨"fromJson", 1, some 1, Builtin.fromJson⟩,
    ⟨"hashFiles", 1, none, fun _ => .ok .indeterminate⟩,
    ⟨"success", 0, some 0, Builtin.always true⟩,
    ⟨"always", 0, some 0, Builtin.always true⟩,
    ⟨"failure", 0, some 0, Builtin.always false⟩,
    ⟨"cancelled", 0, some 0, Builtin.always false⟩]

end WorkflowLint.Expr
