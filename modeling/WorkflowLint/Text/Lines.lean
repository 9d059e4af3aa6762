import WorkflowLint.Text.Span

/-! Lines of a text, and offsets as a line with a column. -/
namespace WorkflowLint.Text

structure Position where
  line : Nat
  column : Nat
deriving DecidableEq, Repr

structure Range where
  start : Position
  stop : Position
deriving DecidableEq, Repr

structure LineIndex where
  starts : List Nat
  size : Nat
deriving DecidableEq, Repr

namespace LineIndex

def startsFrom (offset : Nat) : List Char → List Nat
  | [] => []
  | c :: cs =>
    if c = '\n' then (offset + 1) :: startsFrom (offset + 1) cs else startsFrom (offset + 1) cs

def ofText (text : List Char) : LineIndex := ⟨0 :: startsFrom 0 text, text.length⟩

def lineAt (index : LineIndex) (offset : Nat) : Nat :=
  (index.starts.takeWhile (· ≤ offset)).length - 1

def position (index : LineIndex) (offset : Nat) : Position :=
  let offset := min offset index.size
  let line := index.lineAt offset
  ⟨line, offset - index.starts[line]?.getD 0⟩

/-- A column past the end of its line counts as the end of the line, a line past the last one as
the end of the text. -/
def offset (index : LineIndex) (p : Position) : Nat :=
  match index.starts[p.line]? with
  | none => index.size
  | some start =>
    let stop := match index.starts[p.line + 1]? with
      | none => index.size
      | some next => next - 1
    min (start + p.column) stop

def range (index : LineIndex) (span : Span) : Range :=
  ⟨index.position span.start, index.position span.stop⟩

end LineIndex

def dropReturn : List Char → List Char
  | [] => []
  | ['\r'] => []
  | c :: cs => c :: dropReturn cs

/-- The lines of a text, `line` being the part of the first one read so far, last character
first. A text does not end in an empty line of its own. -/
def linesFrom (line : List Char) : List Char → List (List Char)
  | [] => if line.isEmpty then [] else [line.reverse]
  | c :: cs =>
    if c = '\n' then dropReturn line.reverse :: linesFrom [] cs else linesFrom (c :: line) cs

def lines (text : List Char) : List (List Char) := linesFrom [] text

end WorkflowLint.Text
