import WorkflowLint.Text.Digit
import WorkflowLint.Yaml.Tag

/-! Scalars: how far each of the three kinds reaches, and the text that it stands for. -/
namespace WorkflowLint.Yaml

/-- A scalar as read: its text, the characters of it, and the characters read with the blanks and
line breaks that follow it. -/
structure Piece where
  text : List Char
  size : Nat
  used : Nat
  lineEnd : Bool
deriving DecidableEq, Repr

theorem length_drop_lt {n : Nat} {text : List Char} (h : 0 < n ∧ text ≠ []) :
    (text.drop n).length < text.length := by
  have := List.length_pos_iff.2 h.2
  rw [List.length_drop]
  omega

namespace Plain

def isFlowMark (c : Char) : Bool := c = ',' || c = '[' || c = ']' || c = '\x7b' || c = '\x7d'

/-- The length of the word that stands first. A colon ends it in front of a blank, and so do the
marks of a flow collection inside of one. -/
def word (flow : Bool) : List Char → Scan Nat
  | [] => .ok 0
  | c :: rest =>
    if isGap c then .ok 0
    else if flow && c = ':' && rest.head?.any (fun d => d = '?' || isFlowMark d) then
      .error ⟨0, .strayColon, .plainScalar⟩
    else if (c = ':' && endsWord rest) || (flow && isFlowMark c) then .ok 0
    else do return (← (word flow rest).after 1) + 1

def badTab? (indent : Nat) (broken : Bool) (column : Nat) : List Char → Option Nat
  | [] => none
  | c :: rest =>
    if isBreak c then (badTab? indent true 0 rest).map (· + 1)
    else if broken && column < indent && c = '\t' then some 0
    else (badTab? indent broken (column + 1) rest).map (· + 1)

theorem length_dropWhile_lt {p : Char → Bool} {text : List Char}
    (h : ¬ (text.takeWhile p).isEmpty = true) : (text.dropWhile p).length < text.length := by
  have hsum := congrArg List.length (List.takeWhile_append_dropWhile (p := p) (l := text))
  have hpos : 0 < (text.takeWhile p).length := by
    rw [List.isEmpty_iff] at h
    exact List.length_pos_iff.2 h
  simp only [List.length_append] at hsum
  omega

def scan (flow : Bool) (indent column : Nat) (text : List Char) : Scan Piece :=
  if (column = 0 && documentMark text) || text.head? = some '#' then .ok ⟨[], 0, 0, false⟩
  else
    match word flow text with
    | .error stop => .error stop
    | .ok size =>
      let rest := text.drop size
      if _ : (rest.takeWhile isGap).isEmpty then .ok ⟨text.take size, size, size, false⟩
      else
        let gap := rest.takeWhile isGap
        match badTab? indent false (column + size) gap with
        | some i => .error ⟨size + i, .tabBeforeWord, .plainScalar⟩
        | none =>
          let column := columnAfter (column + size) gap
          let used := size + gap.length
          if !flow && column < indent then
            .ok ⟨text.take size, size, used, gap.any isBreak⟩
          else do
            let more ← (scan flow indent column (rest.dropWhile isGap)).after used
            if more.size = 0 then return ⟨text.take size, size, used, gap.any isBreak⟩
            return ⟨text.take size ++ foldGap gap ++ more.text, used + more.size,
              used + more.used, more.lineEnd⟩
termination_by text.length
decreasing_by
  exact Nat.lt_of_lt_of_le (length_dropWhile_lt (by assumption)) (by simp [List.length_drop])

end Plain

namespace Quoted

inductive WordEnd where
  | quote
  | gap
  | continued
deriving DecidableEq, Repr

def escape? : Char → Option Char
  | '0' => some (Char.ofNat 0)
  | 'a' => some (Char.ofNat 7)
  | 'b' => some (Char.ofNat 8)
  | 't' | '\t' => some '\t'
  | 'n' => some '\n'
  | 'v' => some (Char.ofNat 11)
  | 'f' => some (Char.ofNat 12)
  | 'r' => some '\r'
  | 'e' => some (Char.ofNat 27)
  | ' ' => some ' '
  | '"' => some '"'
  | '/' => some '/'
  | '\\' => some '\\'
  | 'N' => some '\u0085'
  | '_' => some '\u00A0'
  | 'L' => some '\u2028'
  | 'P' => some '\u2029'
  | _ => none

def hexLength? : Char → Option Nat
  | 'x' => some 2
  | 'u' => some 4
  | 'U' => some 8
  | _ => none

/-- What an escape stands for and its length without the backslash. With `anyCode` numbers that
are no characters are let through, as a replacement character. -/
def escape (anyCode : Bool) : List Char → Scan (Char × Nat)
  | [] => .error ⟨0, .unknownEscape, .quotedEscape⟩
  | c :: rest =>
    match escape? c, hexLength? c with
    | some d, _ => .ok (d, 1)
    | none, none => .error ⟨0, .unknownEscape, .quotedEscape⟩
    | none, some n =>
      let digits := rest.take n
      match Text.readDigits? 16 digits with
      | none => .error ⟨2, .badHexDigits, .quotedEscape⟩
      | some code =>
        if digits.length < n then .error ⟨2, .badHexDigits, .quotedEscape⟩
        else if code.isValidChar then .ok (Char.ofNat code, n + 1)
        else if anyCode then .ok ('\uFFFD', n + 1)
        else .error ⟨2, .badCodePoint, .quotedEscape⟩

def word (single anyCode : Bool) (skip : Nat) : List Char → Scan (List Char × Nat × WordEnd)
  | [] => .ok ([], 0, .gap)
  | c :: rest =>
    match skip with
    | skip + 1 => do
      let (text, used, ending) ← (word single anyCode skip rest).after 1
      return (text, used + 1, ending)
    | 0 =>
      if isGap c then .ok ([], 0, .gap)
      else if single && c = '\'' then
        if rest.head? = some '\'' then do
          let (text, used, ending) ← (word single anyCode 1 rest).after 1
          return ('\'' :: text, used + 1, ending)
        else .ok ([], 0, .quote)
      else if !single && c = '"' then .ok ([], 0, .quote)
      else if !single && c = '\\' then
        if rest.head?.any isBreak then .ok ([], 1 + breakLength rest, .continued)
        else do
          let (decoded, length) ← escape anyCode rest
          let (text, used, ending) ← (word single anyCode length rest).after 1
          return (decoded :: text, used + 1, ending)
      else do
        let (text, used, ending) ← (word single anyCode 0 rest).after 1
        return (c :: text, used + 1, ending)

def scan (single anyCode : Bool) (column : Nat) (text : List Char) : Scan (List Char × Nat) :=
  if column = 0 && documentMark text then .error ⟨0, .documentMarkInside, .quotedScalar⟩
  else
    match word single anyCode 0 text with
    | .error stop => .error stop
    | .ok (front, size, .quote) => .ok (front, size + 1)
    | .ok (front, size, ending) =>
      let gap := (text.drop size).takeWhile isGap
      let used := size + gap.length
      if _ : 0 < used ∧ text ≠ [] then do
        let (more, length) ←
          (scan single anyCode (columnAfter column (text.take used)) (text.drop used)).after used
        let between := if ending = .continued then breaksOf gap else foldGap gap
        return (front ++ between ++ more, used + length)
      else .error ⟨0, .endInside, .quotedScalar⟩
termination_by text.length
decreasing_by exact length_drop_lt (by assumption)

end Quoted

namespace Block

inductive Chomping where
  | clip
  | strip
  | keep
deriving DecidableEq, Repr

structure Header where
  chomping : Chomping
  indent : Option Nat
  size : Nat
deriving DecidableEq, Repr

def chomping? : Char → Option Chomping
  | '-' => some .strip
  | '+' => some .keep
  | _ => none

def indentation? (used : Nat) (c : Char) : Scan (Option Nat) :=
  if c = '0' then .error ⟨used, .zeroIndentation, .blockScalar⟩
  else if c.isDigit then .ok (some (c.toNat - '0'.toNat))
  else .ok none

def header : List Char → Scan Header
  | [] => .ok ⟨.clip, none, 0⟩
  | c :: rest =>
    match chomping? c with
    | some chomping =>
      match rest with
      | [] => .ok ⟨chomping, none, 1⟩
      | d :: _ => do
        let indent ← indentation? 1 d
        return ⟨chomping, indent, if indent.isSome then 2 else 1⟩
    | none => do
      match ← indentation? 0 c with
      | none => return ⟨.clip, none, 0⟩
      | some indent =>
        match rest.head?.bind chomping? with
        | some chomping => return ⟨chomping, some indent, 2⟩
        | none => return ⟨.clip, some indent, 1⟩

structure Gap where
  breaks : List Char
  used : Nat
  column : Nat
  widest : Nat
deriving DecidableEq, Repr

def gap (indent : Option Nat) (text : List Char) : Scan Gap :=
  let spaces := (text.takeWhile (· = ' ')).length
  let column := match indent with
    | some n => min spaces n
    | none => spaces
  let rest := text.drop column
  let inside := match indent with
    | some n => column < n
    | none => true
  if inside && rest.head? = some '\t' then .error ⟨column, .tabIndentation, .blockScalar⟩
  else
    let size := breakLength rest
    if size = 0 then .ok ⟨[], column, column, column⟩
    else if _ : 0 < column + size ∧ text ≠ [] then do
      let more ← (gap indent (text.drop (column + size))).after (column + size)
      return ⟨breaksOf (rest.take size) ++ more.breaks, column + size + more.used, more.column,
        max column more.widest⟩
    else .ok ⟨[], column, column, column⟩
termination_by text.length
decreasing_by exact length_drop_lt (by assumption)

structure Body where
  text : List Char
  last : List Char
  further : List Char
  used : Nat
deriving DecidableEq, Repr

/-- The lines from one that begins in the given column. `last` and `further` are the line breaks
before it, and `wasBlank` says whether the line before them began with a blank: in a folded
scalar one line break between two lines that do not is a blank, and of several the first is
dropped. -/
def body (folded : Bool) (indent column : Nat) (last further : List Char) (wasBlank : Bool)
    (text : List Char) : Scan Body :=
  if column ≠ indent || text.isEmpty then .ok ⟨[], last, further, 0⟩
  else
    let isBlank := text.head?.any isSpace
    let between :=
      if folded && last = ['\n'] && !wasBlank && !isBlank then
        if further.isEmpty then [' '] else further
      else last ++ further
    let line := text.takeWhile (!isBreak ·)
    let rest := text.drop line.length
    let size := breakLength rest
    match (gap (some indent) (rest.drop size)).after (line.length + size) with
    | .error stop => .error stop
    | .ok g =>
      let used := line.length + size + g.used
      if _ : 0 < used ∧ text ≠ [] then do
        let more ← (body folded indent g.column (breaksOf (rest.take size)) g.breaks isBlank
          (text.drop used)).after used
        return { more with text := between ++ line ++ more.text, used := used + more.used }
      else .ok ⟨[], last, further, 0⟩
termination_by text.length
decreasing_by exact length_drop_lt (by assumption)

def visibleLength (text : List Char) : Nat := (text.reverse.dropWhile isGap).length

/-- A block scalar behind its sign. `level` is the least column that belongs to the enclosing
block. A scalar at the very end of the text takes along all that is left. -/
def scan (folded : Bool) (level : Nat) (text : List Char) : Scan Piece := do
  let header ← header text
  let remainder ← (lineRemainder .blockScalar (text.drop header.size)).after header.size
  let line := header.size + remainder
  let start := line + breakLength (text.drop line)
  let given := header.indent.map (level - 1 + ·)
  let g ← (gap given (text.drop start)).after start
  let indent := given.getD (max g.widest (max level 1))
  let front := start + g.used
  let body ← (body folded indent g.column [] g.breaks false (text.drop front)).after front
  let used := front + body.used
  let ending := match header.chomping with
    | .strip => []
    | .clip => body.last
    | .keep => body.last ++ body.further
  let size := if (text.drop used).isEmpty then used else visibleLength (text.take used)
  return ⟨body.text ++ ending, size, used, true⟩

end Block

end WorkflowLint.Yaml
