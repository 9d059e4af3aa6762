import WorkflowLint.Proofs.Expr.Grammar

/-! Places are only carried along. Whatever is done to the offsets of all tokens is done to the
offsets of the expression that they are read as, or of the error, and nothing else changes. -/
namespace WorkflowLint

def Span.relabel (f : Nat → Nat) (s : Span) : Span := ⟨f s.start, f s.stop⟩

namespace Expr

def Lexeme.relabel (f : Nat → Nat) (t : Lexeme) : Lexeme := ⟨t.token, t.span.relabel f⟩

def ParseError.relabel (f : Nat → Nat) (e : ParseError) : ParseError := ⟨e.fault, e.span.relabel f⟩

mutual

def relabel (f : Nat → Nat) : Expr → Expr
  | .literal s v => .literal (s.relabel f) v
  | .context s name => .context (s.relabel f) name
  | .property s target name => .property (s.relabel f) (relabel f target) name
  | .index s target i => .index (s.relabel f) (relabel f target) (relabel f i)
  | .call s name args => .call (s.relabel f) name (relabelAll f args)
  | .apply s callee args => .apply (s.relabel f) (relabel f callee) (relabelAll f args)
  | .binary s op left right => .binary (s.relabel f) op (relabel f left) (relabel f right)
  | .not s operand => .not (s.relabel f) (relabel f operand)

def relabelAll (f : Nat → Nat) : List Expr → List Expr
  | [] => []
  | e :: es => relabel f e :: relabelAll f es

end

theorem relabelAll_eq_map (f : Nat → Nat) (es : List Expr) :
    relabelAll f es = es.map (relabel f) := by
  induction es with
  | nil => rfl
  | cons e es ih => rw [relabelAll, ih, List.map_cons]

@[simp] theorem span_relabel (f : Nat → Nat) (e : Expr) :
    (relabel f e).span = e.span.relabel f := by
  cases e <;> rfl

theorem relabel_withSpan (f : Nat → Nat) (s : Span) (e : Expr) :
    relabel f (e.withSpan s) = (relabel f e).withSpan (s.relabel f) := by
  cases e <;> rfl

theorem relabel_joined (f : Nat → Nat) (op : BinaryOp) (left right : Expr) :
    relabel f (joined op left right) = joined op (relabel f left) (relabel f right) := by
  simp only [joined, relabel, span_relabel, Span.relabel]

mutual

theorem tree_relabel (f : Nat → Nat) : ∀ e : Expr, tree (relabel f e) = tree e
  | .literal _ _ | .context _ _ => rfl
  | .property _ target _ => by rw [relabel, tree, tree, tree_relabel f target]
  | .index _ target i => by rw [relabel, tree, tree, tree_relabel f target, tree_relabel f i]
  | .call _ _ args => by rw [relabel, tree, tree, trees_relabelAll f args]
  | .apply _ callee args => by
    rw [relabel, tree, tree, tree_relabel f callee, trees_relabelAll f args]
  | .binary _ _ left right => by
    rw [relabel, tree, tree, tree_relabel f left, tree_relabel f right]
  | .not _ operand => by rw [relabel, tree, tree, tree_relabel f operand]

theorem trees_relabelAll (f : Nat → Nat) : ∀ es : List Expr, trees (relabelAll f es) = trees es
  | [] => rfl
  | e :: es => by rw [relabelAll, trees, trees, tree_relabel f e, trees_relabelAll f es]

end

def relabelled {α : Type} (f : Nat → Nat) (move : α → α) : Except ParseError α → Except ParseError α
  | .error e => .error (e.relabel f)
  | .ok x => .ok (move x)

def movedParsed {α : Type} (f : Nat → Nat) (move : α → α) : Parsed α → Parsed α :=
  relabelled f (Prod.map move (List.map (Lexeme.relabel f)))

@[simp] theorem movedParsed_ok {α : Type} (f : Nat → Nat) (move : α → α)
    (read : α × List Lexeme) :
    movedParsed f move (.ok read) = .ok (move read.1, read.2.map (Lexeme.relabel f)) := rfl

def moveArguments (f : Nat → Nat) : List Expr × Span → List Expr × Span :=
  Prod.map (List.map (relabel f)) (Span.relabel f)

structure NaturalAt (f : Nat → Nat) (stop n : Nat) : Prop where
  or : ∀ ts, parseOr (f stop) n (ts.map (Lexeme.relabel f)) =
    movedParsed f (relabel f) (parseOr stop n ts)
  orTail : ∀ left ts, orTail (f stop) n (relabel f left) (ts.map (Lexeme.relabel f)) =
    movedParsed f (relabel f) (orTail stop n left ts)
  and : ∀ ts, parseAnd (f stop) n (ts.map (Lexeme.relabel f)) =
    movedParsed f (relabel f) (parseAnd stop n ts)
  andTail : ∀ left ts, andTail (f stop) n (relabel f left) (ts.map (Lexeme.relabel f)) =
    movedParsed f (relabel f) (andTail stop n left ts)
  comparison : ∀ ts, parseComparison (f stop) n (ts.map (Lexeme.relabel f)) =
    movedParsed f (relabel f) (parseComparison stop n ts)
  comparisonTail : ∀ left ts,
    comparisonTail (f stop) n (relabel f left) (ts.map (Lexeme.relabel f)) =
      movedParsed f (relabel f) (comparisonTail stop n left ts)
  unary : ∀ ts, parseUnary (f stop) n (ts.map (Lexeme.relabel f)) =
    movedParsed f (relabel f) (parseUnary stop n ts)
  postfixTail : ∀ target ts,
    postfixTail (f stop) n (relabel f target) (ts.map (Lexeme.relabel f)) =
      movedParsed f (relabel f) (postfixTail stop n target ts)
  primary : ∀ ts, parsePrimary (f stop) n (ts.map (Lexeme.relabel f)) =
    movedParsed f (relabel f) (parsePrimary stop n ts)
  arguments : ∀ ts, parseArguments (f stop) n (ts.map (Lexeme.relabel f)) =
    movedParsed f (moveArguments f) (parseArguments stop n ts)
  argumentsTail : ∀ soFar ts,
    argumentsTail (f stop) n (soFar.map (relabel f)) (ts.map (Lexeme.relabel f)) =
      movedParsed f (moveArguments f) (argumentsTail stop n soFar ts)

variable {f : Nat → Nat} {stop n : Nat}

theorem expect_relabel (f : Nat → Nat) (stop : Nat) (wanted : Token) (ts : List Lexeme) :
    expect (f stop) wanted (ts.map (Lexeme.relabel f)) =
      movedParsed f (Span.relabel f) (expect stop wanted ts) := by
  cases ts with
  | nil => rfl
  | cons t ts =>
    simp only [List.map_cons, expect, Lexeme.relabel]
    split <;> rfl

theorem parseProperty_relabel (f : Nat → Nat) (stop : Nat) (target : Expr) (ts : List Lexeme) :
    parseProperty (f stop) (relabel f target) (ts.map (Lexeme.relabel f)) =
      movedParsed f (relabel f) (parseProperty stop target ts) := by
  cases ts with
  | nil => rfl
  | cons t ts =>
    simp only [List.map_cons, parseProperty, Lexeme.relabel, span_relabel]
    split
    next => rfl
    next => cases ts <;> rfl

theorem not_first_relabel {token : Token} {ts : List Lexeme}
    (h : ¬∃ s us, ts = ⟨token, s⟩ :: us) (f : Nat → Nat) (s : Span) (us : List Lexeme) :
    ts.map (Lexeme.relabel f) ≠ ⟨token, s⟩ :: us := by
  intro heq
  obtain ⟨⟨own, s'⟩, vs, rfl, ht, -⟩ := List.map_eq_cons_iff.mp heq
  cases ht
  exact h ⟨s', vs, rfl⟩

theorem parseOr_relabel (h : NaturalAt f stop n) (ts : List Lexeme) :
    parseOr (f stop) (n + 1) (ts.map (Lexeme.relabel f)) =
      movedParsed f (relabel f) (parseOr stop (n + 1) ts) := by
  rw [parseOr, parseOr, h.and]
  cases parseAnd stop n ts with
  | error e => rfl
  | ok read => exact h.orTail read.1 read.2

theorem orTail_relabel (h : NaturalAt f stop n) (left : Expr) (ts : List Lexeme) :
    orTail (f stop) (n + 1) (relabel f left) (ts.map (Lexeme.relabel f)) =
      movedParsed f (relabel f) (orTail stop (n + 1) left ts) := by
  cases ts with
  | nil => rfl
  | cons t ts =>
    obtain ⟨token, s⟩ := t
    cases token with
    | or =>
      simp only [List.map_cons, Lexeme.relabel, orTail, h.and]
      cases parseAnd stop n ts with
      | error e => rfl
      | ok read =>
        simp only [movedParsed_ok, ← relabel_joined]
        exact h.orTail _ _
    | _ => rfl

theorem parseAnd_relabel (h : NaturalAt f stop n) (ts : List Lexeme) :
    parseAnd (f stop) (n + 1) (ts.map (Lexeme.relabel f)) =
      movedParsed f (relabel f) (parseAnd stop (n + 1) ts) := by
  rw [parseAnd, parseAnd, h.comparison]
  cases parseComparison stop n ts with
  | error e => rfl
  | ok read => exact h.andTail read.1 read.2

theorem andTail_relabel (h : NaturalAt f stop n) (left : Expr) (ts : List Lexeme) :
    andTail (f stop) (n + 1) (relabel f left) (ts.map (Lexeme.relabel f)) =
      movedParsed f (relabel f) (andTail stop (n + 1) left ts) := by
  cases ts with
  | nil => rfl
  | cons t ts =>
    obtain ⟨token, s⟩ := t
    cases token with
    | and =>
      simp only [List.map_cons, Lexeme.relabel, andTail, h.comparison]
      cases parseComparison stop n ts with
      | error e => rfl
      | ok read =>
        simp only [movedParsed_ok, ← relabel_joined]
        exact h.andTail _ _
    | _ => rfl

theorem parseComparison_relabel (h : NaturalAt f stop n) (ts : List Lexeme) :
    parseComparison (f stop) (n + 1) (ts.map (Lexeme.relabel f)) =
      movedParsed f (relabel f) (parseComparison stop (n + 1) ts) := by
  rw [parseComparison, parseComparison, h.unary]
  cases parseUnary stop n ts with
  | error e => rfl
  | ok read => exact h.comparisonTail read.1 read.2

theorem comparisonTail_relabel (h : NaturalAt f stop n) (left : Expr) (ts : List Lexeme) :
    comparisonTail (f stop) (n + 1) (relabel f left) (ts.map (Lexeme.relabel f)) =
      movedParsed f (relabel f) (comparisonTail stop (n + 1) left ts) := by
  cases ts with
  | nil => rfl
  | cons t ts =>
    simp only [List.map_cons, comparisonTail, Lexeme.relabel, h.unary]
    cases comparison? t.token with
    | none => rfl
    | some op =>
      cases parseUnary stop n ts with
      | error e => rfl
      | ok read =>
        simp only [movedParsed_ok, ← relabel_joined]
        exact h.comparisonTail _ _

theorem parseUnary_relabel (h : NaturalAt f stop n) (ts : List Lexeme) :
    parseUnary (f stop) (n + 1) (ts.map (Lexeme.relabel f)) =
      movedParsed f (relabel f) (parseUnary stop (n + 1) ts) := by
  by_cases hnot : ∃ s us, ts = ⟨.not, s⟩ :: us
  · obtain ⟨s, us, rfl⟩ := hnot
    simp only [List.map_cons, Lexeme.relabel, parseUnary, h.unary]
    cases parseUnary stop n us with
    | error e => rfl
    | ok read => simp [relabel, Span.relabel]
  · rw [parseUnary.eq_3 _ _ _ fun s us heq => hnot ⟨s, us, heq⟩,
      parseUnary.eq_3 _ _ _ (not_first_relabel hnot f), h.primary]
    cases parsePrimary stop n ts with
    | error e => rfl
    | ok read => exact h.postfixTail read.1 read.2

theorem postfixTail_relabel (h : NaturalAt f stop n) (target : Expr) (ts : List Lexeme) :
    postfixTail (f stop) (n + 1) (relabel f target) (ts.map (Lexeme.relabel f)) =
      movedParsed f (relabel f) (postfixTail stop (n + 1) target ts) := by
  cases ts with
  | nil => rfl
  | cons t ts =>
    obtain ⟨token, s⟩ := t
    cases token with
    | dot =>
      simp only [List.map_cons, Lexeme.relabel, postfixTail, parseProperty_relabel]
      cases parseProperty stop target ts with
      | error e => rfl
      | ok read => exact h.postfixTail read.1 read.2
    | openBracket =>
      simp only [List.map_cons, Lexeme.relabel, postfixTail, h.or]
      cases parseOr stop n ts with
      | error e => rfl
      | ok read =>
        simp only [movedParsed_ok, expect_relabel]
        cases expect stop .closeBracket read.2 with
        | error e => rfl
        | ok closed =>
          have hmore := h.postfixTail
            (.index ⟨target.span.start, closed.1.stop⟩ target read.1) closed.2
          simpa [relabel, Span.relabel] using hmore
    | openParen =>
      simp only [List.map_cons, Lexeme.relabel, postfixTail, h.arguments]
      cases parseArguments stop n ts with
      | error e => rfl
      | ok read =>
        have hmore := h.postfixTail
          (.apply ⟨target.span.start, read.1.2.stop⟩ target read.1.1) read.2
        simpa [moveArguments, relabel, Span.relabel, relabelAll_eq_map] using hmore
    | _ => rfl

theorem parsePrimary_relabel (h : NaturalAt f stop n) (ts : List Lexeme) :
    parsePrimary (f stop) (n + 1) (ts.map (Lexeme.relabel f)) =
      movedParsed f (relabel f) (parsePrimary stop (n + 1) ts) := by
  have hname (name : String) (s : Span) (us : List Lexeme) :
      (if isContext name then
        .ok (.context (s.relabel f) (Text.asciiLower name), us.map (Lexeme.relabel f))
      else .error ⟨.unknownContext name, s.relabel f⟩) =
      movedParsed f (relabel f) (if isContext name then
        .ok (.context s (Text.asciiLower name), us) else .error ⟨.unknownContext name, s⟩) := by
    split <;> rfl
  cases ts with
  | nil => rfl
  | cons t ts =>
    obtain ⟨token, s⟩ := t
    cases token with
    | openParen =>
      simp only [List.map_cons, Lexeme.relabel, parsePrimary, h.or]
      cases parseOr stop n ts with
      | error e => rfl
      | ok read =>
        simp only [movedParsed_ok, expect_relabel]
        cases expect stop .closeParen read.2 with
        | error e => rfl
        | ok closed => simp [relabel_withSpan, Span.relabel]
    | ident name =>
      cases ts with
      | nil => exact hname name s []
      | cons u ts =>
        obtain ⟨next, s'⟩ := u
        cases next with
        | openParen =>
          simp only [List.map_cons, Lexeme.relabel, parsePrimary, h.arguments]
          cases parseArguments stop n ts with
          | error e => rfl
          | ok read => simp [moveArguments, relabel, Span.relabel, relabelAll_eq_map]
        | _ => exact hname name s (_ :: ts)
    | _ => rfl

theorem parseArguments_relabel (h : NaturalAt f stop n) (ts : List Lexeme) :
    parseArguments (f stop) (n + 1) (ts.map (Lexeme.relabel f)) =
      movedParsed f (moveArguments f) (parseArguments stop (n + 1) ts) := by
  by_cases hclose : ∃ s us, ts = ⟨.closeParen, s⟩ :: us
  · obtain ⟨s, us, rfl⟩ := hclose
    rfl
  · rw [parseArguments.eq_3 _ _ _ fun s us heq => hclose ⟨s, us, heq⟩,
      parseArguments.eq_3 _ _ _ (not_first_relabel hclose f), h.or]
    cases parseOr stop n ts with
    | error e => rfl
    | ok read => exact h.argumentsTail [read.1] read.2

theorem argumentsTail_relabel (h : NaturalAt f stop n) (soFar : List Expr) (ts : List Lexeme) :
    argumentsTail (f stop) (n + 1) (soFar.map (relabel f)) (ts.map (Lexeme.relabel f)) =
      movedParsed f (moveArguments f) (argumentsTail stop (n + 1) soFar ts) := by
  by_cases hcomma : ∃ s us, ts = ⟨.comma, s⟩ :: us
  · obtain ⟨s, us, rfl⟩ := hcomma
    simp only [List.map_cons, Lexeme.relabel, argumentsTail, h.or]
    cases parseOr stop n us with
    | error e => rfl
    | ok read => exact h.argumentsTail (read.1 :: soFar) read.2
  · rw [argumentsTail.eq_3 _ _ _ _ fun s us heq => hcomma ⟨s, us, heq⟩,
      argumentsTail.eq_3 _ _ _ _ (not_first_relabel hcomma f), expect_relabel]
    cases expect stop .closeParen ts with
    | error e => rfl
    | ok closed => simp [moveArguments]

theorem naturalAt (f : Nat → Nat) (stop n : Nat) : NaturalAt f stop n := by
  induction n with
  | zero => constructor <;> intros <;> rfl
  | succ n ih =>
    exact ⟨parseOr_relabel ih, orTail_relabel ih, parseAnd_relabel ih, andTail_relabel ih,
      parseComparison_relabel ih, comparisonTail_relabel ih, parseUnary_relabel ih,
      postfixTail_relabel ih, parsePrimary_relabel ih, parseArguments_relabel ih,
      argumentsTail_relabel ih⟩

/-- Tokens at other places are read as the same expression at other places, and an error stays the
same one. Without tokens, the place of the end is zero and has to stay there. -/
theorem parseTokens_relabel {ts : List Lexeme} (h : ts ≠ [] ∨ f 0 = 0) :
    parseTokens (ts.map (Lexeme.relabel f)) = relabelled f (relabel f) (parseTokens ts) := by
  have hbudget : budget (ts.map (Lexeme.relabel f)) = budget ts := by
    rw [budget, List.length_map, budget]
  have hend : endOf (ts.map (Lexeme.relabel f)) = f (endOf ts) := by
    obtain rfl | ⟨us, t, rfl⟩ := List.eq_nil_or_concat ts
    · simpa [endOf, eq_comm] using h
    · simp [endOf, Lexeme.relabel, Span.relabel]
  simp only [parseTokens, hbudget, hend, (naturalAt f (endOf ts) (budget ts)).or]
  cases parseOr (endOf ts) (budget ts) ts with
  | error e => rfl
  | ok read =>
    obtain ⟨e, rest⟩ := read
    cases rest <;> rfl

end Expr
end WorkflowLint
