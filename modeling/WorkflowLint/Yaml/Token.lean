import WorkflowLint.Yaml.Scalar

/-! The tokens of a document. Blocks, which indentation delimits, have tokens at their ends like
any other collection, and a key has one before it, though it is known to be a key only by the
colon behind it. -/
namespace WorkflowLint.Yaml

inductive Style where
  | plain
  | singleQuoted
  | doubleQuoted
  | block
deriving DecidableEq, Repr

inductive Token.Kind where
  | streamEnd
  | directive (d : Directive)
  | documentStart
  | documentEnd
  | blockSequenceStart
  | blockMappingStart
  | blockEnd
  | flowSequenceStart
  | flowSequenceEnd
  | flowMappingStart
  | flowMappingEnd
  | blockEntry
  | flowEntry
  | key
  | value
  | alias (name : String)
  | anchor (name : String)
  | tag (t : Tag)
  | scalar (style : Style) (text : String)
deriving DecidableEq, Repr

/-- A token from `start` up to the byte `stop`. What comes before it, comments included, ends at
the byte `gap`. -/
structure Token where
  kind : Token.Kind
  start : Mark
  stop : Nat
  gap : Nat
deriving DecidableEq, Repr

structure SimpleKey where
  required : Bool
  number : Nat
  mark : Mark
  gap : Nat
deriving DecidableEq, Repr

/-- A text of which some tokens have been read, last one first in `tokens`. Of the blocks and flow
collections that are open, `levels` and `keys` have the innermost one first. -/
structure Scanner where
  rest : List Char
  mark : Mark
  gap : Nat
  flow : Nat
  level : Nat
  levels : List Nat
  keyAllowed : Bool
  keys : List (Option SimpleKey)
  tokens : List Token
  count : Nat
deriving Repr

/-- The blanks, line breaks and comments that stand first: their length, whether a key may follow,
and how far it is to the end of the last comment. -/
structure Layout where
  used : Nat
  keyAllowed : Bool
  comment : Option Nat
deriving DecidableEq, Repr

namespace Layout

def shift (l : Layout) : Layout := { l with used := l.used + 1, comment := l.comment.map (· + 1) }

def endsBlank (text : List Char) : Bool :=
  let rest := text.dropWhile isSpace
  endsLine rest || rest.head? = some '#'

def scan (lenient flow keyAllowed comment : Bool) : List Char → Layout
  | [] => ⟨0, keyAllowed, if comment then some 0 else none⟩
  | c :: rest =>
    if isBreak c then
      let l := (scan lenient flow (keyAllowed || !flow) false rest).shift
      if comment && l.comment.isNone then { l with comment := some 0 } else l
    else if comment || c = '#' then (scan lenient flow keyAllowed true rest).shift
    else if c = ' ' || (c = '\t' && (flow || !keyAllowed || (lenient && endsBlank rest))) then
      (scan lenient flow keyAllowed false rest).shift
    else ⟨0, keyAllowed, none⟩

end Layout

namespace Scanner

def ofText (text : List Char) : Scanner :=
  { rest := text, mark := ⟨0, 0, 0⟩, gap := 0, flow := 0, level := 0, levels := [],
    keyAllowed := true, keys := [none], tokens := [], count := 0 }

def advance (s : Scanner) (n : Nat) : Scanner :=
  { s with rest := s.rest.drop n, mark := s.mark.after (s.rest.take n) }

def lift {α : Type} (s : Scanner) (ahead : Nat) : Scan α → Except Fault α
  | .ok a => .ok a
  | .error stop =>
    .error ⟨stop.problem, some stop.activity, s.mark.after (s.rest.take (ahead + stop.used))⟩

def point (s : Scanner) (kind : Token.Kind) : Scanner :=
  { s with tokens := ⟨kind, s.mark, s.mark.index, s.gap⟩ :: s.tokens, count := s.count + 1 }

def take (s : Scanner) (kind : Token.Kind) (size used : Nat) : Scanner :=
  let stop := (s.mark.after (s.rest.take size)).index
  let t : Token := ⟨kind, s.mark, stop, s.gap⟩
  { s.advance used with tokens := t :: s.tokens, count := s.count + 1, gap := stop }

def insert (s : Scanner) (number : Nat) (t : Token) : Scanner :=
  let later := s.count - number
  { s with tokens := s.tokens.take later ++ t :: s.tokens.drop later, count := s.count + 1 }

def skipLayout (lenient : Bool) (s : Scanner) : Scanner :=
  let l := Layout.scan lenient (s.flow > 0) s.keyAllowed false s.rest
  let gap := match l.comment with
    | some n => (s.mark.after (s.rest.take n)).index
    | none => s.gap
  { s.advance l.used with keyAllowed := l.keyAllowed, gap := gap }

def isStale (s : Scanner) (k : SimpleKey) : Bool :=
  k.mark.line < s.mark.line || k.mark.index + 1024 < s.mark.index

/-- A key has to be followed by its colon on its line and within 1024 bytes. -/
def dropStaleKeys (s : Scanner) : Except Fault Scanner :=
  if s.keys.any fun k => k.any fun k => k.required && s.isStale k then
    .error ⟨.missingColon, some .simpleKey, s.mark⟩
  else .ok { s with keys := s.keys.map fun k => k.filter fun k => !s.isStale k }

def removeKey (s : Scanner) : Except Fault Scanner :=
  match s.keys with
  | some k :: keys =>
    if k.required then .error ⟨.missingColon, some .simpleKey, s.mark⟩
    else .ok { s with keys := none :: keys }
  | _ => .ok s

def saveKey (s : Scanner) : Except Fault Scanner :=
  if s.keyAllowed then do
    let s ← s.removeKey
    let k : SimpleKey :=
      ⟨s.flow = 0 && s.level = s.mark.column + 1, s.count, s.mark, s.gap⟩
    return { s with keys := some k :: s.keys.tail }
  else .ok s

def allowKey (s : Scanner) (allowed : Bool) : Scanner := { s with keyAllowed := allowed }

def closeBlocks (s : Scanner) (level : Nat) : Scanner :=
  if s.flow > 0 then s
  else
    let all := s.level :: s.levels
    let open_ := all.dropWhile (level < ·)
    let closed := (all.takeWhile (level < ·)).length
    let ends := List.replicate closed ⟨.blockEnd, s.mark, s.mark.index, s.gap⟩
    { s with
      level := open_.headD 0
      levels := open_.tail
      tokens := ends ++ s.tokens
      count := s.count + closed }

def openBlock (s : Scanner) (number : Nat) (kind : Token.Kind) (mark : Mark) (gap : Nat) :
    Scanner :=
  if s.flow = 0 && s.level ≤ mark.column then
    { s.insert number ⟨kind, mark, mark.index, gap⟩ with
      level := mark.column + 1, levels := s.level :: s.levels }
  else s

def streamEnd (s : Scanner) : Except Fault Scanner := do
  let mark := if s.mark.column = 0 then s.mark else ⟨s.mark.index, s.mark.line + 1, 0⟩
  let s ← ({ s with mark := mark }.closeBlocks 0).removeKey
  return (s.allowKey false).point .streamEnd

def directive (s : Scanner) (rest : List Char) : Except Fault Scanner := do
  let s := s.closeBlocks 0
  let s ← s.removeKey
  let s := s.allowKey false
  let (d, size, used) ← s.lift 1 (Yaml.directive rest)
  return s.take (.directive d) (size + 1) (used + 1)

def documentMark (s : Scanner) (kind : Token.Kind) : Except Fault Scanner := do
  let s ← (s.closeBlocks 0).removeKey
  return (s.allowKey false).take kind 3 3

def flowStart (s : Scanner) (kind : Token.Kind) : Except Fault Scanner := do
  let s ← s.saveKey
  let s := { s with flow := s.flow + 1, keys := none :: s.keys }
  return (s.allowKey true).take kind 1 1

def flowEnd (s : Scanner) (kind : Token.Kind) : Except Fault Scanner := do
  let s ← s.removeKey
  let s := if s.flow > 0 then { s with flow := s.flow - 1, keys := s.keys.tail } else s
  return (s.allowKey false).take kind 1 1

def flowEntry (s : Scanner) : Except Fault Scanner := do
  let s ← s.removeKey
  return (s.allowKey true).take .flowEntry 1 1

def beginsBlock (s : Scanner) (kind : Token.Kind) (problem : Problem) : Except Fault Scanner :=
  if s.flow > 0 then .ok s
  else if s.keyAllowed then .ok (s.openBlock s.count kind s.mark s.gap)
  else .error ⟨problem, none, s.mark⟩

def blockEntry (s : Scanner) : Except Fault Scanner := do
  let s ← s.beginsBlock .blockSequenceStart .itemNotAllowed
  let s ← s.removeKey
  return (s.allowKey true).take .blockEntry 1 1

def key (s : Scanner) : Except Fault Scanner := do
  let s ← s.beginsBlock .blockMappingStart .keyNotAllowed
  let s ← s.removeKey
  return (s.allowKey (s.flow = 0)).take .key 1 1

def value (s : Scanner) : Except Fault Scanner :=
  match s.keys with
  | some k :: keys =>
    let s := s.insert k.number ⟨.key, k.mark, k.mark.index, k.gap⟩
    let s := s.openBlock k.number .blockMappingStart k.mark k.gap
    .ok (({ s with keys := none :: keys }.allowKey false).take .value 1 1)
  | _ => do
    let s ← s.beginsBlock .blockMappingStart .valueNotAllowed
    return (s.allowKey (s.flow = 0)).take .value 1 1

def anchor (s : Scanner) (rest : List Char) (isAlias : Bool) : Except Fault Scanner := do
  let s ← s.saveKey
  let s := s.allowKey false
  let name ← s.lift 1 (anchorName (if isAlias then .alias else .anchor) rest)
  let text := String.ofList name
  let size := name.length + 1
  return s.take (if isAlias then .alias text else .anchor text) size size

def tag (s : Scanner) : Except Fault Scanner := do
  let s ← s.saveKey
  let s := s.allowKey false
  let (t, size) ← s.lift 0 (Yaml.tag (s.flow > 0) s.rest)
  return s.take (.tag t) size size

def scalar (s : Scanner) (style : Style) (text : List Char) (size used : Nat) : Scanner :=
  s.take (.scalar style (String.ofList text)) size used

def blockScalar (s : Scanner) (folded : Bool) (rest : List Char) : Except Fault Scanner := do
  let s ← s.removeKey
  let s := s.allowKey true
  let piece ← s.lift 1 (Block.scan folded s.level rest)
  return s.scalar .block piece.text (piece.size + 1) (piece.used + 1)

def quotedScalar (s : Scanner) (single lenient : Bool) (rest : List Char) :
    Except Fault Scanner := do
  let s ← s.saveKey
  let s := s.allowKey false
  let (text, used) ← s.lift 1 (Quoted.scan single lenient (s.mark.column + 1) rest)
  return s.scalar (if single then .singleQuoted else .doubleQuoted) text (used + 1) (used + 1)

def plainScalar (s : Scanner) : Except Fault Scanner := do
  let s ← s.saveKey
  let piece ← s.lift 0 (Plain.scan (s.flow > 0) s.level s.mark.column s.rest)
  return (s.allowKey piece.lineEnd).scalar .plain piece.text piece.size piece.used

/-- A character with a meaning of its own does not begin a plain scalar, but a dash, and outside
of flow collections a colon or a question mark, does if a word goes on behind it. -/
def beginsPlain (flow : Bool) (c : Char) (rest : List Char) : Bool :=
  !(isGap c || "-?:,[]\x7b\x7d#&*!|>'\"%@\x60".toList.contains c) ||
    (c = '-' && !rest.head?.any isSpace) || (!flow && (c = '?' || c = ':') && !endsWord rest)

def token (lenient : Bool) (s : Scanner) (c : Char) (rest : List Char) : Except Fault Scanner :=
  let flow := s.flow > 0
  if s.mark.column = 0 && c = '%' then s.directive rest
  else if s.mark.column = 0 && Yaml.documentMark (c :: rest) then
    s.documentMark (if c = '-' then .documentStart else .documentEnd)
  else if c = '[' then s.flowStart .flowSequenceStart
  else if c = '\x7b' then s.flowStart .flowMappingStart
  else if c = ']' then s.flowEnd .flowSequenceEnd
  else if c = '\x7d' then s.flowEnd .flowMappingEnd
  else if c = ',' then s.flowEntry
  else if c = '-' && endsWord rest then s.blockEntry
  else if c = '?' && (flow || endsWord rest) then s.key
  else if c = ':' && (flow || endsWord rest) then s.value
  else if c = '*' then s.anchor rest true
  else if c = '&' then s.anchor rest false
  else if c = '!' then s.tag
  else if (c = '|' || c = '>') && !flow then s.blockScalar (c = '>') rest
  else if c = '\'' || c = '"' then s.quotedScalar (c = '\'') lenient rest
  else if beginsPlain flow c rest then s.plainScalar
  else .error ⟨.strayCharacter, some .nextToken, s.mark⟩

def next (lenient : Bool) (s : Scanner) : Except Fault Scanner := do
  let s ← (s.skipLayout lenient).dropStaleKeys
  let s := if s.rest.isEmpty then { s with gap := s.mark.index } else s
  let s := s.closeBlocks (s.mark.column + 1)
  let s ← match s.rest with
    | [] => s.streamEnd
    | c :: rest => s.token lenient c rest
  s.dropStaleKeys

def settled (s : Scanner) : Nat :=
  s.keys.foldl (fun n k => match k with
    | some k => min n k.number
    | none => n) s.count

end Scanner

/-- The tokens of a text up to the fault, if it has one. The first `ready` tokens do not depend on
what comes at the fault or behind it. -/
structure Tokens where
  all : List Token
  ready : Nat
  fault : Option Fault
deriving Repr

namespace Tokens

def scanFrom (lenient : Bool) : Nat → Scanner → Tokens
  | 0, s => ⟨s.tokens.reverse, s.settled, none⟩
  | limit + 1, s =>
    match s.next lenient with
    | .error fault => ⟨s.tokens.reverse, s.settled, some fault⟩
    | .ok t =>
      if t.rest.isEmpty && t.tokens.head?.any (·.kind = .streamEnd) then
        ⟨t.tokens.reverse, t.count, none⟩
      else scanFrom lenient limit t

/-- The tokens of a text. A lenient reader lets escaped numbers pass that are no characters, and
tabs on empty lines. -/
def scan (lenient : Bool) (text : List Char) : Tokens :=
  scanFrom lenient (text.length + 1) (.ofText text)

def delivered (ts : Tokens) : List Token := if ts.fault.isSome then ts.all.take ts.ready else ts.all

end Tokens

end WorkflowLint.Yaml
