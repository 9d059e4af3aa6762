/-! Places in a document, and the characters that separate its words and lines. -/
namespace WorkflowLint.Yaml

structure Mark where
  index : Nat
  line : Nat
  column : Nat
deriving DecidableEq, Repr, Inhabited

def isBreak (c : Char) : Bool :=
  c = '\n' || c = '\r' || c = '\u0085' || c = '\u2028' || c = '\u2029'

def isSpace (c : Char) : Bool := c = ' ' || c = '\t'

def isGap (c : Char) : Bool := isSpace c || isBreak c

def endsWord : List Char → Bool
  | [] => true
  | c :: _ => isGap c

def endsLine : List Char → Bool
  | [] => true
  | c :: _ => isBreak c

def documentMark : List Char → Bool
  | '-' :: '-' :: '-' :: rest => endsWord rest
  | '.' :: '.' :: '.' :: rest => endsWord rest
  | _ => false

namespace Mark

/-- The place behind a text. A carriage return with a line feed is one line break. -/
def after (m : Mark) : List Char → Mark
  | [] => m
  | '\r' :: '\n' :: rest => after ⟨m.index + 2, m.line + 1, 0⟩ rest
  | c :: rest =>
    if isBreak c then after ⟨m.index + c.utf8Size, m.line + 1, 0⟩ rest
    else after ⟨m.index + c.utf8Size, m.line, m.column + 1⟩ rest

end Mark

def columnAfter (column : Nat) (text : List Char) : Nat := (Mark.after ⟨0, 0, column⟩ text).column

def breaksOf : List Char → List Char
  | [] => []
  | '\r' :: '\n' :: rest => '\n' :: breaksOf rest
  | c :: rest =>
    if c = '\u2028' || c = '\u2029' then c :: breaksOf rest
    else if isBreak c then '\n' :: breaksOf rest
    else breaksOf rest

def breakLength : List Char → Nat
  | '\r' :: '\n' :: _ => 2
  | c :: _ => if isBreak c then 1 else 0
  | [] => 0

/-- Line breaks between two words of a scalar: one line feed is a blank, and of several the first
is dropped. -/
def foldBreaks : List Char → List Char
  | ['\n'] => [' ']
  | '\n' :: breaks => breaks
  | breaks => breaks

def foldGap (gap : List Char) : List Char :=
  if gap.any isBreak then foldBreaks (breaksOf gap) else gap

end WorkflowLint.Yaml
