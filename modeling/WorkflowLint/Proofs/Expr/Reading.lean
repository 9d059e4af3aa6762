import WorkflowLint.Proofs.Expr.Completeness

/-! What some tokens are read as, wherever they stand. The expression, with its places, comes from
the tokens alone: it is the same whatever follows, as long as that does not tie more tightly, and
whatever the budget, as long as that is enough. -/
namespace WorkflowLint.Expr.Grammar

section
variable {α β : Type}

def Gives (k : Nat) (follows : List Lexeme → Prop) (parse : Nat → Nat → List Lexeme → Parsed α)
    (ts : List Lexeme) (x : α) : Prop :=
  ∀ stop n rest, 8 * ts.length + k ≤ n → follows rest → parse stop n (ts ++ rest) = .ok (x, rest)

def Reaches (k : Nat) (follows : List Lexeme → Prop) (parse : Nat → Nat → List Lexeme → Parsed α)
    (tail : Nat → Nat → β → List Lexeme → Parsed α) (ts : List Lexeme) (x : β) : Prop :=
  ∀ stop n rest, 8 * ts.length + k ≤ n → follows rest →
    Continues id (parse stop) (tail stop) n ts rest x

variable {k : Nat} {follows follows' : List Lexeme → Prop}
  {parse : Nat → Nat → List Lexeme → Parsed α} {tail : Nat → Nat → β → List Lexeme → Parsed α}
  {ts us rest : List Lexeme} {x y : β}

theorem Reaches.returns (h : Reaches (k + 1) follows parse tail ts x) (stop : Nat) {n : Nat}
    (hn : 8 * ts.length + (k + 1) ≤ n) (hrest : follows rest) :
    ∃ m, parse stop n (ts ++ rest) = tail stop (m + 1) x rest := by
  obtain ⟨m, y, hm, hy, hp⟩ := h stop n rest hn hrest
  obtain ⟨m, rfl⟩ : ∃ k, m = k + 1 := ⟨m - 1, by omega⟩
  subst hy
  exact ⟨m, hp⟩

/-- One turn of a loop takes the tokens `us`; all but nine of the budget for them are left to it. -/
theorem Reaches.turn (h : Reaches k follows parse tail ts x) (hus : us ≠ [])
    (hfollows : ∀ rest, follows (us ++ rest))
    (hturn : ∀ stop m rest, 8 * us.length + k ≤ m + 9 → follows' rest →
      tail stop (m + 1) x (us ++ rest) = tail stop m y rest) :
    Reaches k follows' parse tail (ts ++ us) y := by
  intro stop n rest hn hrest
  have hpos := List.length_pos_iff.mpr hus
  rw [List.length_append] at hn
  have hx := h stop n (us ++ rest) (by omega) (hfollows rest)
  refine hx.turn (k := 8 * us.length + k - 9) hpos (by omega) fun m x' hm hx' => ?_
  subst hx'
  exact ⟨y, rfl, hturn stop m rest (by omega) hrest⟩

end

/-! Operators between operands -/

/-- A level of operators that tie equally: a function reads the first operand by the tighter one,
and continues as long as an operator of the level follows. -/
structure Operators (k level : Nat) (operand parse : Nat → Nat → List Lexeme → Parsed Expr)
    (tail : Nat → Nat → Expr → List Lexeme → Parsed Expr) (operator : Token → BinaryOp → Prop) :
    Prop where
  start : ∀ {stop n ts e rest}, operand stop n ts = .ok (e, rest) →
    parse stop (n + 1) ts = tail stop n e rest
  turn : ∀ {stop n left t op ts right rest}, operator t.token op →
    operand stop n ts = .ok (right, rest) →
    tail stop (n + 1) left (t :: ts) = tail stop n (joined op left right) rest
  stops : ∀ {stop rest}, Stops level rest → ∀ n e, tail stop (n + 1) e rest = .ok (e, rest)
  binding : ∀ {t op}, operator t op → binding t = level + 1

namespace Operators
variable {k level : Nat} {operand parse : Nat → Nat → List Lexeme → Parsed Expr}
  {tail : Nat → Nat → Expr → List Lexeme → Parsed Expr} {operator : Token → BinaryOp → Prop}
  {ts us : List Lexeme} {e l r : Expr}

theorem single (o : Operators k level operand parse tail operator) (hb : Begins ts)
    (h : Gives k (Stops (level + 1)) operand ts e) :
    Reaches (k + 1) (Stops (level + 1)) parse tail ts e := by
  intro stop n rest hn hs
  obtain ⟨n, rfl⟩ : ∃ m, n = m + 1 := ⟨n - 1, by omega⟩
  exact .start hb rfl (o.start (h stop n rest (by omega) hs))

theorem more (o : Operators k level operand parse tail operator) (t : Lexeme) {op : BinaryOp}
    (hop : operator t.token op) (hl : Reaches (k + 1) (Stops (level + 1)) parse tail ts l)
    (hr : Gives k (Stops (level + 1)) operand us r) :
    Reaches (k + 1) (Stops (level + 1)) parse tail (ts ++ t :: us) (joined op l r) := by
  refine hl.turn (List.cons_ne_nil t us) ?_ ?_
  · exact fun rest => .cons (Nat.le_of_eq (o.binding hop)) _
  · intro stop m rest hm hs
    rw [List.length_cons] at hm
    exact o.turn hop (hr stop m rest (by omega) hs)

theorem gives (o : Operators k level operand parse tail operator)
    (h : Reaches (k + 1) (Stops (level + 1)) parse tail ts e) :
    Gives (k + 1) (Stops level) parse ts e := by
  intro stop n rest hn hs
  obtain ⟨m, hp⟩ := h.returns stop hn (hs.mono (Nat.le_succ level))
  rw [hp, o.stops hs]

end Operators

theorem orOperators :
    Operators 4 0 parseAnd parseOr orTail fun t op => t = .or ∧ op = .or where
  start h := by simp only [parseOr, h]
  turn := by
    rintro stop n left ⟨token, s⟩ op ts right rest ⟨rfl, rfl⟩ h
    simp only [orTail, h]
  stops := orTail_stops
  binding := by
    rintro t op ⟨rfl, -⟩
    rfl

theorem andOperators :
    Operators 3 1 parseComparison parseAnd andTail fun t op => t = .and ∧ op = .and where
  start h := by simp only [parseAnd, h]
  turn := by
    rintro stop n left ⟨token, s⟩ op ts right rest ⟨rfl, rfl⟩ h
    simp only [andTail, h]
  stops := andTail_stops
  binding := by
    rintro t op ⟨rfl, -⟩
    rfl

theorem comparisonOperators :
    Operators 2 2 parseUnary parseComparison comparisonTail Relation where
  start h := by simp only [parseComparison, h]
  turn hop h := by simp only [comparisonTail, comparison?_eq_some.2 hop, h]
  stops := comparisonTail_stops
  binding hop := hop.binding_eq

/-! Operands -/

def Uncalled (ts rest : List Lexeme) : Prop := peek rest = some .openParen → Callable ts

section
variable {ts us : List Lexeme} {e i : Expr} {es : List Expr}

theorem reads_not (s : Span) (h : Gives 2 (Stops 3) parseUnary ts e) :
    Gives 2 (Stops 3) parseUnary (⟨.not, s⟩ :: ts) (.not ⟨s.start, e.span.stop⟩ e) := by
  intro stop n rest hn hs
  rw [List.length_cons] at hn
  obtain ⟨n, rfl⟩ : ∃ m, n = m + 1 := ⟨n - 1, by omega⟩
  simp only [List.cons_append, parseUnary, h stop n rest (by omega) hs]

theorem reads_chain (h : Reaches 1 (Uncalled ts) parseUnary postfixTail ts e) :
    Gives 2 (Stops 3) parseUnary ts e := by
  intro stop n rest hn hs
  have hrest : Uncalled ts rest := fun hp => absurd hp (hs.not_peek (by decide))
  obtain ⟨m, hp⟩ := h.returns stop (Nat.le_of_succ_le hn) hrest
  rw [hp, postfixTail_stops hs]

theorem reads_primary (hb : BeginsOperand ts) (h : Gives 0 (Uncalled ts) parsePrimary ts e) :
    Reaches 1 (Uncalled ts) parseUnary postfixTail ts e := by
  intro stop n rest hn hs
  obtain ⟨n, rfl⟩ : ∃ m, n = m + 1 := ⟨n - 1, by omega⟩
  obtain ⟨t, us, rfl, ht⟩ := hb
  refine .start ⟨t, us, rfl, ht.1⟩ rfl ?_
  exact parseUnary_of_operand ⟨t, us ++ rest, rfl, ht⟩ (h stop n rest (by omega) hs)

theorem reads_property (s : Span) {t : Lexeme} {name : String} (hname : Name t.token name)
    (h : Reaches 1 (Uncalled ts) parseUnary postfixTail ts e) :
    Reaches 1 (Uncalled (ts ++ [⟨.dot, s⟩, t])) parseUnary postfixTail (ts ++ [⟨.dot, s⟩, t])
      (.property ⟨e.span.start, t.span.stop⟩ e name) := by
  refine h.turn (List.cons_ne_nil _ _) (by simp [Uncalled, peek]) fun stop m rest _ _ => ?_
  simp only [List.cons_append, List.nil_append, postfixTail, parseProperty,
    propertyName?_eq_some.2 hname]

theorem reads_index (s s' : Span) (h : Reaches 1 (Uncalled ts) parseUnary postfixTail ts e)
    (hi : Gives 5 (Stops 0) parseOr us i) :
    Reaches 1 (Uncalled (ts ++ ⟨.openBracket, s⟩ :: us ++ [⟨.closeBracket, s'⟩])) parseUnary
      postfixTail (ts ++ ⟨.openBracket, s⟩ :: us ++ [⟨.closeBracket, s'⟩])
      (.index ⟨e.span.start, s'.stop⟩ e i) := by
  rw [List.append_assoc]
  refine h.turn (List.cons_ne_nil _ _) (by simp [Uncalled, peek]) fun stop m rest hm _ => ?_
  simp only [List.length_append, List.length_cons, List.length_nil] at hm
  have hkey := hi stop m (⟨.closeBracket, s'⟩ :: rest) (by omega) (.cons (Nat.le_refl 0) rest)
  simp only [List.cons_append, List.append_assoc, List.nil_append, postfixTail, hkey, expect,
    if_true]

/-! Arguments -/

def ReadsArguments (ts : List Lexeme) (es : List Expr) : Prop :=
  ∀ stop n s rest, 8 * ts.length + 6 ≤ n →
    parseArguments stop n (ts ++ ⟨.closeParen, s⟩ :: rest) = .ok ((es, s), rest)

theorem reads_none : ReadsArguments [] [] := by
  intro stop n s rest hn
  obtain ⟨n, rfl⟩ : ∃ m, n = m + 1 := ⟨n - 1, by omega⟩
  simp only [List.nil_append, parseArguments]

theorem reads_some {soFar : List Expr}
    (h : Reaches 6 (Stops 0) parseArguments argumentsTail ts soFar) :
    ReadsArguments ts soFar.reverse := by
  intro stop n s rest hn
  have hs : Stops 0 (⟨.closeParen, s⟩ :: rest) := .cons (Nat.le_refl 0) rest
  obtain ⟨m, hp⟩ := h.returns stop hn hs
  simp only [hp, argumentsTail, expect, if_true]

theorem reads_one (hb : Begins ts) (h : Gives 5 (Stops 0) parseOr ts e) :
    Reaches 6 (Stops 0) parseArguments argumentsTail ts [e] := by
  intro stop n rest hn hs
  obtain ⟨n, rfl⟩ : ∃ m, n = m + 1 := ⟨n - 1, by omega⟩
  exact .start hb rfl (parseArguments_of_begins (hb.append rest) (h stop n rest (by omega) hs))

theorem reads_comma (s : Span) (hl : Reaches 6 (Stops 0) parseArguments argumentsTail ts es)
    (hr : Gives 5 (Stops 0) parseOr us e) :
    Reaches 6 (Stops 0) parseArguments argumentsTail (ts ++ ⟨.comma, s⟩ :: us) (e :: es) := by
  refine hl.turn (List.cons_ne_nil _ _) (fun rest => .cons (Nat.le_refl 0) _) ?_
  intro stop m rest hm hs
  rw [List.length_cons] at hm
  simp only [List.cons_append, argumentsTail, hr stop m rest (by omega) hs]

theorem reads_apply (s s' : Span) (h : Reaches 1 (Uncalled ts) parseUnary postfixTail ts e)
    (hc : Callable ts) (ha : ReadsArguments us es) :
    Reaches 1 (Uncalled (ts ++ ⟨.openParen, s⟩ :: us ++ [⟨.closeParen, s'⟩])) parseUnary
      postfixTail (ts ++ ⟨.openParen, s⟩ :: us ++ [⟨.closeParen, s'⟩])
      (.apply ⟨e.span.start, s'.stop⟩ e es) := by
  rw [List.append_assoc]
  refine h.turn (List.cons_ne_nil _ _) (fun _ _ => hc) fun stop m rest hm _ => ?_
  simp only [List.length_append, List.length_cons, List.length_nil] at hm
  simp only [List.cons_append, List.append_assoc, List.nil_append, postfixTail,
    ha stop m s' rest (by omega)]

/-! Primary operands -/

theorem reads_literal {t : Lexeme} {v : Literal} (h : Value t.token v) :
    Gives 0 (Uncalled [t]) parsePrimary [t] (.literal t.span v) := by
  intro stop n rest hn hs
  obtain ⟨n, rfl⟩ : ∃ m, n = m + 1 := ⟨n - 1, by rw [List.length_singleton] at hn; omega⟩
  obtain ⟨token, span⟩ := t
  cases h <;> simp [parsePrimary, literal?]

theorem reads_group (s s' : Span) (h : Gives 5 (Stops 0) parseOr ts e) :
    Gives 0 (Uncalled (⟨.openParen, s⟩ :: ts ++ [⟨.closeParen, s'⟩])) parsePrimary
      (⟨.openParen, s⟩ :: ts ++ [⟨.closeParen, s'⟩]) (e.withSpan ⟨s.start, s'.stop⟩) := by
  intro stop n rest hn hs
  simp only [List.length_append, List.length_cons] at hn
  obtain ⟨n, rfl⟩ : ∃ m, n = m + 1 := ⟨n - 1, by omega⟩
  have hinner := h stop n (⟨.closeParen, s'⟩ :: rest) (by omega) (.cons (Nat.le_refl 0) rest)
  simp only [List.cons_append, List.append_assoc, List.nil_append, parsePrimary, hinner, expect,
    if_true]

theorem reads_context (s : Span) {name : String} (h : isContext name = true) :
    Gives 0 (Uncalled [⟨.ident name, s⟩]) parsePrimary [⟨.ident name, s⟩]
      (.context s (Text.asciiLower name)) := by
  intro stop n rest hn hs
  obtain ⟨n, rfl⟩ : ∃ m, n = m + 1 := ⟨n - 1, by rw [List.length_singleton] at hn; omega⟩
  have hrest (s' : Span) (us : List Lexeme) (heq : rest = ⟨.openParen, s'⟩ :: us) : False := by
    subst heq
    exact hs rfl name s rfl
  rw [List.cons_append, List.nil_append, parsePrimary.eq_5 stop n name s rest hrest, if_pos h]

theorem reads_call (name : String) (s s' s'' : Span) (h : ReadsArguments ts es) :
    Gives 0 (Uncalled (⟨.ident name, s⟩ :: ⟨.openParen, s'⟩ :: ts ++ [⟨.closeParen, s''⟩]))
      parsePrimary (⟨.ident name, s⟩ :: ⟨.openParen, s'⟩ :: ts ++ [⟨.closeParen, s''⟩])
      (.call ⟨s.start, s''.stop⟩ name es) := by
  intro stop n rest hn hs
  simp only [List.length_append, List.length_cons] at hn
  obtain ⟨n, rfl⟩ : ∃ m, n = m + 1 := ⟨n - 1, by omega⟩
  simp only [List.cons_append, List.append_assoc, List.nil_append, parsePrimary,
    h stop n s'' rest (by omega)]

/-! All tokens -/

theorem parseTokens_of_or (h : Reaches 5 (Stops 1) parseOr orTail ts e) :
    parseTokens ts = .ok e := by
  have hb : 8 * ts.length + 5 ≤ budget ts := by
    unfold budget
    omega
  have hall := orOperators.gives h (endOf ts) (budget ts) [] hb (.nil 0)
  rw [List.append_nil] at hall
  simp only [parseTokens, hall]

theorem parseTokens_of_and (hb : Begins ts) (h : Reaches 4 (Stops 2) parseAnd andTail ts e) :
    parseTokens ts = .ok e :=
  parseTokens_of_or (orOperators.single hb (andOperators.gives h))

theorem parseTokens_of_comparison (hb : Begins ts)
    (h : Reaches 3 (Stops 3) parseComparison comparisonTail ts e) : parseTokens ts = .ok e :=
  parseTokens_of_and hb (andOperators.single hb (comparisonOperators.gives h))

theorem parseTokens_of_unary (hb : Begins ts) (h : Gives 2 (Stops 3) parseUnary ts e) :
    parseTokens ts = .ok e :=
  parseTokens_of_comparison hb (comparisonOperators.single hb h)

end
end WorkflowLint.Expr.Grammar
