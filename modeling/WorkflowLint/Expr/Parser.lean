import WorkflowLint.Expr.Lexer
import WorkflowLint.Expr.Syntax

/-! Reading tokens as an expression. From the loosest to the tightest: `||`, `&&`, comparisons,
`!`, and what is written behind an operand: properties, indexes and arguments.

Every function takes a budget, which a call passes on one smaller; `parseTokens` gives one that
the length of the input cannot use up. -/
namespace WorkflowLint.Expr

abbrev Parsed (α : Type) := Except ParseError (α × List Lexeme)

def endOf (tokens : List Lexeme) : Nat :=
  match tokens.getLast? with
  | none => 0
  | some t => t.span.stop

def peek (tokens : List Lexeme) : Option Token := tokens.head?.map (·.token)

def peekSpan (stop : Nat) : List Lexeme → Span
  | [] => .point stop
  | t :: _ => t.span

def expect (stop : Nat) (wanted : Token) (tokens : List Lexeme) : Parsed Span :=
  match tokens with
  | t :: rest =>
    if t.token = wanted then .ok (t.span, rest)
    else .error ⟨.missing wanted (some t.token), t.span⟩
  | [] => .error ⟨.missing wanted none, .point stop⟩

def comparison? : Token → Option BinaryOp
  | .eq => some .eq
  | .ne => some .ne
  | .lt => some .lt
  | .le => some .le
  | .gt => some .gt
  | .ge => some .ge
  | _ => none

/-- Words that are values elsewhere are names behind a point. -/
def propertyName? : Token → Option String
  | .ident name => some name
  | .true => some "true"
  | .false => some "false"
  | .null => some "null"
  | _ => none

def literal? : Token → Option Literal
  | .number x => some (.number x)
  | .string s => some (.string s)
  | .true => some (.bool true)
  | .false => some (.bool false)
  | .null => some .null
  | _ => none

/-- The property behind a point. A token that is no name is passed over before the fault is
placed. -/
def parseProperty (stop : Nat) (target : Expr) : List Lexeme → Parsed Expr
  | [] => .error ⟨.missingName none, .point stop⟩
  | t :: rest =>
    match propertyName? t.token with
    | some name => .ok (.property ⟨target.span.start, t.span.stop⟩ target name, rest)
    | none => .error ⟨.missingName (some t.token), peekSpan stop rest⟩

def exhausted (stop : Nat) : ParseError := ⟨.endOfText, .point stop⟩

mutual

def parseOr (stop : Nat) : Nat → List Lexeme → Parsed Expr
  | 0, _ => .error (exhausted stop)
  | n + 1, tokens =>
    match parseAnd stop n tokens with
    | .error e => .error e
    | .ok (left, rest) => orTail stop n left rest

def orTail (stop : Nat) : Nat → Expr → List Lexeme → Parsed Expr
  | 0, _, _ => .error (exhausted stop)
  | n + 1, left, tokens =>
    match tokens with
    | ⟨.or, _⟩ :: rest =>
      match parseAnd stop n rest with
      | .error e => .error e
      | .ok (right, rest) => orTail stop n (joined .or left right) rest
    | _ => .ok (left, tokens)

def parseAnd (stop : Nat) : Nat → List Lexeme → Parsed Expr
  | 0, _ => .error (exhausted stop)
  | n + 1, tokens =>
    match parseComparison stop n tokens with
    | .error e => .error e
    | .ok (left, rest) => andTail stop n left rest

def andTail (stop : Nat) : Nat → Expr → List Lexeme → Parsed Expr
  | 0, _, _ => .error (exhausted stop)
  | n + 1, left, tokens =>
    match tokens with
    | ⟨.and, _⟩ :: rest =>
      match parseComparison stop n rest with
      | .error e => .error e
      | .ok (right, rest) => andTail stop n (joined .and left right) rest
    | _ => .ok (left, tokens)

def parseComparison (stop : Nat) : Nat → List Lexeme → Parsed Expr
  | 0, _ => .error (exhausted stop)
  | n + 1, tokens =>
    match parseUnary stop n tokens with
    | .error e => .error e
    | .ok (left, rest) => comparisonTail stop n left rest

def comparisonTail (stop : Nat) : Nat → Expr → List Lexeme → Parsed Expr
  | 0, _, _ => .error (exhausted stop)
  | n + 1, left, tokens =>
    match tokens with
    | [] => .ok (left, [])
    | t :: rest =>
      match comparison? t.token with
      | none => .ok (left, tokens)
      | some op =>
        match parseUnary stop n rest with
        | .error e => .error e
        | .ok (right, rest) => comparisonTail stop n (joined op left right) rest

def parseUnary (stop : Nat) : Nat → List Lexeme → Parsed Expr
  | 0, _ => .error (exhausted stop)
  | n + 1, tokens =>
    match tokens with
    | ⟨.not, s⟩ :: rest =>
      match parseUnary stop n rest with
      | .error e => .error e
      | .ok (operand, rest) => .ok (.not ⟨s.start, operand.span.stop⟩ operand, rest)
    | _ =>
      match parsePrimary stop n tokens with
      | .error e => .error e
      | .ok (e, rest) => postfixTail stop n e rest

def postfixTail (stop : Nat) : Nat → Expr → List Lexeme → Parsed Expr
  | 0, _, _ => .error (exhausted stop)
  | n + 1, target, tokens =>
    match tokens with
    | ⟨.dot, _⟩ :: rest =>
      match parseProperty stop target rest with
      | .error e => .error e
      | .ok (e, rest) => postfixTail stop n e rest
    | ⟨.openBracket, _⟩ :: rest =>
      match parseOr stop n rest with
      | .error e => .error e
      | .ok (key, rest) =>
        match expect stop .closeBracket rest with
        | .error e => .error e
        | .ok (close, rest) =>
          postfixTail stop n (.index ⟨target.span.start, close.stop⟩ target key) rest
    | ⟨.openParen, _⟩ :: rest =>
      match parseArguments stop n rest with
      | .error e => .error e
      | .ok ((args, close), rest) =>
        postfixTail stop n (.apply ⟨target.span.start, close.stop⟩ target args) rest
    | _ => .ok (target, tokens)

def parsePrimary (stop : Nat) : Nat → List Lexeme → Parsed Expr
  | 0, _ => .error (exhausted stop)
  | n + 1, tokens =>
    match tokens with
    | [] => .error ⟨.endOfText, .point stop⟩
    | ⟨.openParen, s⟩ :: rest =>
      match parseOr stop n rest with
      | .error e => .error e
      | .ok (inner, rest) =>
        match expect stop .closeParen rest with
        | .error e => .error e
        | .ok (close, rest) => .ok (inner.withSpan ⟨s.start, close.stop⟩, rest)
    | ⟨.ident name, s⟩ :: ⟨.openParen, _⟩ :: rest =>
      match parseArguments stop n rest with
      | .error e => .error e
      | .ok ((args, close), rest) => .ok (.call ⟨s.start, close.stop⟩ name args, rest)
    | ⟨.ident name, s⟩ :: rest =>
      if isContext name then .ok (.context s (Text.asciiLower name), rest)
      else .error ⟨.unknownContext name, s⟩
    | t :: rest =>
      match literal? t.token with
      | some v => .ok (.literal t.span v, rest)
      | none => .error ⟨.misplaced t.token, t.span⟩

def parseArguments (stop : Nat) : Nat → List Lexeme → Parsed (List Expr × Span)
  | 0, _ => .error (exhausted stop)
  | n + 1, tokens =>
    match tokens with
    | ⟨.closeParen, s⟩ :: rest => .ok (([], s), rest)
    | _ =>
      match parseOr stop n tokens with
      | .error e => .error e
      | .ok (first, rest) => argumentsTail stop n [first] rest

def argumentsTail (stop : Nat) : Nat → List Expr → List Lexeme → Parsed (List Expr × Span)
  | 0, _, _ => .error (exhausted stop)
  | n + 1, soFar, tokens =>
    match tokens with
    | ⟨.comma, _⟩ :: rest =>
      match parseOr stop n rest with
      | .error e => .error e
      | .ok (next, rest) => argumentsTail stop n (next :: soFar) rest
    | _ =>
      match expect stop .closeParen tokens with
      | .error e => .error e
      | .ok (close, rest) => .ok ((soFar.reverse, close), rest)

end

/-- Eight calls are enough for each token: six from a parenthesis to the next one, one for the
token itself, and one in reserve. -/
def budget (tokens : List Lexeme) : Nat := 8 * tokens.length + 8

def parseTokens (tokens : List Lexeme) : Except ParseError Expr :=
  match parseOr (endOf tokens) (budget tokens) tokens with
  | .error e => .error e
  | .ok (e, []) => .ok e
  | .ok (_, t :: _) => .error ⟨.leftOver t.token, t.span⟩

def parse (text : List Char) : Except ParseError Expr :=
  match lex text with
  | .error e => .error e
  | .ok tokens => parseTokens tokens

end WorkflowLint.Expr
