import WorkflowLint.Yaml.Mark

/-! What can be wrong with a document, and how it is said. -/
namespace WorkflowLint.Yaml

inductive Activity where
  | nextToken
  | simpleKey
  | directive
  | versionDirective
  | tagDirective
  | tagDirectiveHandle
  | tagDirectiveHandleEnd
  | tagDirectiveAddress
  | tag
  | tagAddress
  | anchor
  | alias
  | blockScalar
  | quotedScalar
  | quotedEscape
  | plainScalar
  | node
  | blockNode
  | flowNode
  | blockSequence
  | blockMapping
  | flowSequence
  | flowMapping
deriving DecidableEq, Repr

namespace Activity

def text : Activity → String
  | .nextToken => "while scanning for the next token"
  | .simpleKey => "while scanning a simple key"
  | .directive => "while scanning a directive"
  | .versionDirective => "while scanning a %YAML directive"
  | .tagDirective => "while scanning a %TAG directive"
  | .tagDirectiveHandle => "while scanning a tag directive"
  | .tagDirectiveHandleEnd => "while parsing a tag directive"
  | .tagDirectiveAddress => "while parsing a %TAG directive"
  | .tag => "while scanning a tag"
  | .tagAddress => "while parsing a tag"
  | .anchor => "while scanning an anchor"
  | .alias => "while scanning an alias"
  | .blockScalar => "while scanning a block scalar"
  | .quotedScalar => "while scanning a quoted scalar"
  | .quotedEscape => "while parsing a quoted scalar"
  | .plainScalar => "while scanning a plain scalar"
  | .node => "while parsing a node"
  | .blockNode => "while parsing a block node"
  | .flowNode => "while parsing a flow node"
  | .blockSequence => "while parsing a block collection"
  | .blockMapping => "while parsing a block mapping"
  | .flowSequence => "while parsing a flow sequence"
  | .flowMapping => "while parsing a flow mapping"

end Activity

inductive Problem where
  | strayCharacter
  | missingColon
  | itemNotAllowed
  | keyNotAllowed
  | valueNotAllowed
  | missingDirectiveName
  | badDirectiveName
  | unknownDirective
  | missingLineEnd
  | badVersion
  | missingVersion
  | longVersion
  | missingBlank
  | missingBlankOrBreak
  | missingBang
  | missingAddress
  | badAddressEscape
  | badLeadingOctet
  | badTrailingOctet
  | unclosedTag
  | badName
  | zeroIndentation
  | tabIndentation
  | documentMarkInside
  | endInside
  | unknownEscape
  | badHexDigits
  | badCodePoint
  | tabBeforeWord
  | strayColon
  | missingDocumentStart
  | repeatedVersion
  | unsupportedVersion
  | repeatedHandle
  | undefinedHandle
  | missingContent
  | missingDash
  | missingKey
  | missingBracket
  | missingBrace
deriving DecidableEq, Repr

namespace Problem

def text : Problem → String
  | .strayCharacter => "found character that cannot start any token"
  | .missingColon => "could not find expected ':'"
  | .itemNotAllowed => "block sequence entries are not allowed in this context"
  | .keyNotAllowed => "mapping keys are not allowed in this context"
  | .valueNotAllowed => "mapping values are not allowed in this context"
  | .missingDirectiveName => "could not find expected directive name"
  | .badDirectiveName => "found unexpected non-alphabetical character"
  | .unknownDirective => "found unknown directive name"
  | .missingLineEnd => "did not find expected comment or line break"
  | .badVersion => "did not find expected digit or '.' character"
  | .missingVersion => "did not find expected version number"
  | .longVersion => "found extremely long version number"
  | .missingBlank => "did not find expected whitespace"
  | .missingBlankOrBreak => "did not find expected whitespace or line break"
  | .missingBang => "did not find expected '!'"
  | .missingAddress => "did not find expected tag URI"
  | .badAddressEscape => "did not find URI escaped octet"
  | .badLeadingOctet => "found an incorrect leading UTF-8 octet"
  | .badTrailingOctet => "found an incorrect trailing UTF-8 octet"
  | .unclosedTag => "did not find the expected '>'"
  | .badName => "did not find expected alphabetic or numeric character"
  | .zeroIndentation => "found an indentation indicator equal to 0"
  | .tabIndentation => "found a tab character where an indentation space is expected"
  | .documentMarkInside => "found unexpected document indicator"
  | .endInside => "found unexpected end of stream"
  | .unknownEscape => "found unknown escape character"
  | .badHexDigits => "did not find expected hexdecimal number"
  | .badCodePoint => "found invalid Unicode character escape code"
  | .tabBeforeWord => "found a tab character that violates indentation"
  | .strayColon => "found unexpected ':'"
  | .missingDocumentStart => "did not find expected <document start>"
  | .repeatedVersion => "found duplicate %YAML directive"
  | .unsupportedVersion => "found incompatible YAML document"
  | .repeatedHandle => "found duplicate %TAG directive"
  | .undefinedHandle => "found undefined tag handle"
  | .missingContent => "did not find expected node content"
  | .missingDash => "did not find expected '-' indicator"
  | .missingKey => "did not find expected key"
  | .missingBracket => "did not find expected ',' or ']'"
  | .missingBrace => "did not find expected ',' or '\x7d'"

end Problem

structure Fault where
  problem : Problem
  activity : Option Activity
  mark : Mark
deriving DecidableEq, Repr

inductive YamlError where
  | fault (f : Fault)
  | controlCharacter (index : Nat)
  | unknownAnchor (mark : Mark)
  | manyDocuments
deriving DecidableEq, Repr

namespace YamlError

/-- The place is named only in the middle of a message, and not if it is the very beginning. -/
def message : YamlError → String
  | .fault ⟨problem, none, _⟩ => problem.text
  | .fault ⟨problem, some activity, mark⟩ =>
    let place :=
      if mark.line = 0 ∧ mark.column = 0 then ""
      else " at line " ++ toString (mark.line + 1) ++ " column " ++ toString (mark.column + 1)
    problem.text ++ place ++ ", " ++ activity.text
  | .controlCharacter 0 => "control characters are not allowed"
  | .controlCharacter index =>
    "control characters are not allowed at position " ++ toString index
  | .unknownAnchor _ => "unknown anchor"
  | .manyDocuments => "deserializing from YAML containing more than one document is not supported"

def index : YamlError → Nat
  | .fault f => f.mark.index
  | .unknownAnchor mark => mark.index
  | .controlCharacter _ | .manyDocuments => 0

end YamlError

structure Stop where
  used : Nat
  problem : Problem
  activity : Activity
deriving DecidableEq, Repr

abbrev Scan := Except Stop

def Scan.after {α : Type} (used : Nat) : Scan α → Scan α
  | .ok a => .ok a
  | .error stop => .error { stop with used := used + stop.used }

end WorkflowLint.Yaml
