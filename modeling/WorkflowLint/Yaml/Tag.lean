import WorkflowLint.Text.Digit
import WorkflowLint.Yaml.Problem

/-! Names, tags and directives. -/
namespace WorkflowLint.Yaml

def isNameChar (c : Char) : Bool := c.isAlphanum || c = '_' || c = '-'

/-- The characters of a tag's address, which in its long form may also be flow indicators. -/
def isAddressChar (long : Bool) (c : Char) : Bool :=
  isNameChar c || ";/?:@&=+$.%!~*'()".toList.contains c || (long && ",[]".toList.contains c)

def octet? : List Char → Option Nat
  | '%' :: h :: l :: _ => do return 16 * (← Text.hexValue? h) + (← Text.hexValue? l)
  | _ => none

def leadingOctet? (octet : Nat) : Option (Nat × Nat) :=
  if octet < 0x80 then some (1, octet)
  else if 0xC0 ≤ octet ∧ octet < 0xE0 then some (2, octet % 0x20)
  else if 0xE0 ≤ octet ∧ octet < 0xF0 then some (3, octet % 0x10)
  else if 0xF0 ≤ octet ∧ octet < 0xF8 then some (4, octet % 0x08)
  else none

def trailingOctets (activity : Activity) : Nat → Nat → List Char → Scan Nat
  | 0, value, _ => .ok value
  | n + 1, value, text =>
    match octet? text with
    | none => .error ⟨0, .badAddressEscape, activity⟩
    | some octet =>
      if 0x80 ≤ octet ∧ octet < 0xC0 then
        (trailingOctets activity n (64 * value + octet % 0x40) (text.drop 3)).after 3
      else .error ⟨0, .badTrailingOctet, activity⟩

def escapedChar (activity : Activity) (text : List Char) : Scan (Char × Nat) :=
  match octet? text with
  | none => .error ⟨0, .badAddressEscape, activity⟩
  | some octet =>
    match leadingOctet? octet with
    | none => .error ⟨0, .badLeadingOctet, activity⟩
    | some (width, bits) => do
      let value ← (trailingOctets activity (width - 1) bits (text.drop 3)).after 3
      return (Char.ofNat value, 3 * width)

def addressFrom (long : Bool) (activity : Activity) (skip : Nat) :
    List Char → Scan (List Char × Nat)
  | [] => .ok ([], 0)
  | c :: rest =>
    match skip with
    | skip + 1 => do
      let (text, used) ← (addressFrom long activity skip rest).after 1
      return (text, used + 1)
    | 0 =>
      if c = '%' then do
        let (decoded, length) ← escapedChar activity (c :: rest)
        let (text, used) ← (addressFrom long activity (length - 1) rest).after 1
        return (decoded :: text, used + 1)
      else if isAddressChar long c then do
        let (text, used) ← (addressFrom long activity 0 rest).after 1
        return (c :: text, used + 1)
      else .ok ([], 0)

/-- An address, which may be empty only if something stands before it. -/
def address (long : Bool) (activity : Activity) (mayBeEmpty : Bool) (text : List Char) :
    Scan (List Char × Nat) := do
  let (decoded, used) ← addressFrom long activity 0 text
  if used = 0 && !mayBeEmpty then .error ⟨0, .missingAddress, activity⟩
  return (decoded, used)

def handle (directive : Bool) : List Char → Scan (List Char)
  | '!' :: rest =>
    let name := rest.takeWhile isNameChar
    match rest.dropWhile isNameChar with
    | '!' :: _ => .ok ('!' :: name ++ ['!'])
    | _ =>
      if directive && !name.isEmpty then
        .error ⟨name.length + 1, .missingBang, .tagDirectiveHandleEnd⟩
      else .ok ('!' :: name)
  | _ => .error ⟨0, .missingBang, if directive then .tagDirectiveHandle else .tag⟩

/-- A tag as written: a handle and the rest, which alone is the name if the handle is empty. -/
structure Tag where
  handle : List Char
  suffix : List Char
deriving DecidableEq, Repr

def tag (flow : Bool) (text : List Char) : Scan (Tag × Nat) := do
  let (tag, used) ← (match text with
    | '!' :: '<' :: rest => do
      let (suffix, used) ← (address true .tagAddress false rest).after 2
      match rest.drop used with
      | '>' :: _ => return (⟨[], suffix⟩, used + 3)
      | _ => .error ⟨used + 2, .unclosedTag, .tag⟩
    | _ => do
      let front ← handle false text
      let named := front.length > 1 && front.getLast? == some '!'
      let (suffix, used) ←
        (address false .tagAddress (!named) (text.drop front.length)).after front.length
      if named then return (⟨front, suffix⟩, front.length + used)
      let suffix := front.drop 1 ++ suffix
      if suffix.isEmpty then return (⟨[], ['!']⟩, front.length + used)
      return (⟨['!'], suffix⟩, front.length + used))
  let rest := text.drop used
  if endsWord rest || (flow && rest.head? == some ',') then return (tag, used)
  .error ⟨used, .missingBlankOrBreak, .tag⟩

def anchorName (activity : Activity) (text : List Char) : Scan (List Char) :=
  let name := text.takeWhile isNameChar
  let rest := text.dropWhile isNameChar
  let closed := match rest with
    | [] => true
    | c :: _ => isGap c || "?:,]\x7d%@\x60".toList.contains c
  if name.isEmpty || !closed then .error ⟨name.length, .badName, activity⟩ else .ok name

inductive Directive where
  | version (major minor : Nat)
  | tag (handle address : List Char)
deriving DecidableEq, Repr

def versionNumber (text : List Char) : Scan (Nat × Nat) :=
  let digits := text.takeWhile Char.isDigit
  if digits.isEmpty then .error ⟨0, .missingVersion, .versionDirective⟩
  else if 9 < digits.length then .error ⟨9, .longVersion, .versionDirective⟩
  else .ok (digits.foldl (fun n c => 10 * n + (c.toNat - '0'.toNat)) 0, digits.length)

def versionDirective (text : List Char) : Scan (Directive × Nat) := do
  let (major, used) ← versionNumber text
  match text.drop used with
  | '.' :: rest => do
    let (minor, more) ← (versionNumber rest).after (used + 1)
    return (.version major minor, used + 1 + more)
  | _ => .error ⟨used, .badVersion, .versionDirective⟩

def tagDirective (text : List Char) : Scan (Directive × Nat) := do
  let front ← handle true text
  let rest := text.drop front.length
  if !(rest.head?.any isSpace) then .error ⟨front.length, .missingBlank, .tagDirective⟩
  let blanks := (rest.takeWhile isSpace).length
  let begin_ := front.length + blanks
  let (decoded, used) ←
    (address true .tagDirectiveAddress false (rest.drop blanks)).after begin_
  if !endsWord (text.drop (begin_ + used)) then
    .error ⟨begin_ + used, .missingBlankOrBreak, .tagDirective⟩
  return (.tag front decoded, begin_ + used)

def lineRemainder (activity : Activity) (text : List Char) : Scan Nat :=
  let blanks := (text.takeWhile isSpace).length
  let comment := match text.drop blanks with
    | '#' :: rest => 1 + (rest.takeWhile (!isBreak ·)).length
    | _ => 0
  let used := blanks + comment
  if endsLine (text.drop used) then .ok used else .error ⟨used, .missingLineEnd, activity⟩

def directive (text : List Char) : Scan (Directive × Nat × Nat) := do
  let name := text.takeWhile isNameChar
  let rest := text.dropWhile isNameChar
  if name.isEmpty then .error ⟨0, .missingDirectiveName, .directive⟩
  if !endsWord rest then .error ⟨name.length, .badDirectiveName, .directive⟩
  let begin_ := name.length + (rest.takeWhile isSpace).length
  let value := text.drop begin_
  let (directive, used) ←
    if name = "YAML".toList then (versionDirective value).after begin_
    else if name = "TAG".toList then (tagDirective value).after begin_
    else .error ⟨name.length, .unknownDirective, .directive⟩
  let stop := begin_ + used
  let rest := text.drop stop
  let more ← (lineRemainder .directive rest).after stop
  return (directive, stop, stop + more + breakLength (rest.drop more))

end WorkflowLint.Yaml
