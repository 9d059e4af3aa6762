import WorkflowLint.Proofs.Expr.Soundness

/-! Whatever the grammar derives, the parser returns, and the budget is enough for it.

A rule that begins with itself is a loop in the parser: a function reads the first operand and hands
it to one that continues as long as an operator follows. A derivation by such a rule is followed up
to the operand that has been built so far, not to the end of the loop. -/
namespace WorkflowLint.Expr.Grammar

/-- How tightly a token ties what follows to the operand before it; zero if it does not. -/
def binding : Token → Nat
  | .or => 1
  | .and => 2
  | .eq | .ne | .lt | .le | .gt | .ge => 3
  | .dot | .openBracket | .openParen => 4
  | _ => 0

def Stops (level : Nat) (ts : List Lexeme) : Prop := ∀ t, peek ts = some t → binding t ≤ level

theorem Stops.nil (level : Nat) : Stops level [] := by
  intro t ht
  cases ht

theorem Stops.cons {level : Nat} {t : Lexeme} (h : binding t.token ≤ level) (ts : List Lexeme) :
    Stops level (t :: ts) := by
  intro u hu
  cases hu
  exact h

theorem Stops.mono {level level' : Nat} {ts : List Lexeme} (h : Stops level ts)
    (hl : level ≤ level') : Stops level' ts := fun t ht => Nat.le_trans (h t ht) hl

theorem Stops.not_peek {level : Nat} {ts : List Lexeme} {t : Token} (h : Stops level ts)
    (ht : level < binding t) : peek ts ≠ some t :=
  fun hp => Nat.not_le_of_lt ht (h t hp)

theorem Relation.binding_eq {t : Token} {op : BinaryOp} (h : Relation t op) : binding t = 3 := by
  cases h <;> rfl

variable {stop : Nat}

theorem orTail_stops {rest : List Lexeme} (hs : Stops 0 rest) (n : Nat) (e : Expr) :
    orTail stop (n + 1) e rest = .ok (e, rest) := by
  unfold orTail
  split
  next s us => exact absurd rfl (hs.not_peek (t := .or) (by decide))
  next => rfl

theorem andTail_stops {rest : List Lexeme} (hs : Stops 1 rest) (n : Nat) (e : Expr) :
    andTail stop (n + 1) e rest = .ok (e, rest) := by
  unfold andTail
  split
  next s us => exact absurd rfl (hs.not_peek (t := .and) (by decide))
  next => rfl

theorem comparisonTail_stops {rest : List Lexeme} (hs : Stops 2 rest) (n : Nat) (e : Expr) :
    comparisonTail stop (n + 1) e rest = .ok (e, rest) := by
  unfold comparisonTail
  split
  next => rfl
  next t us =>
    split
    next => rfl
    next op hop =>
      have hb := (comparison?_eq_some.1 hop).binding_eq
      exact absurd rfl (hs.not_peek (t := t.token) (by omega))

theorem postfixTail_stops {rest : List Lexeme} (hs : Stops 3 rest) (n : Nat) (e : Expr) :
    postfixTail stop (n + 1) e rest = .ok (e, rest) := by
  unfold postfixTail
  split
  next => exact absurd rfl (hs.not_peek (t := .dot) (by decide))
  next => exact absurd rfl (hs.not_peek (t := .openBracket) (by decide))
  next => exact absurd rfl (hs.not_peek (t := .openParen) (by decide))
  next => rfl

def Begins (ts : List Lexeme) : Prop := ∃ t us, ts = t :: us ∧ t.token ≠ .closeParen

theorem Begins.append {ts : List Lexeme} (h : Begins ts) (us : List Lexeme) : Begins (ts ++ us) := by
  obtain ⟨t, vs, rfl, ht⟩ := h
  exact ⟨t, vs ++ us, rfl, ht⟩

theorem Begins.length_pos {ts : List Lexeme} (h : Begins ts) : 0 < ts.length := by
  obtain ⟨t, us, rfl, -⟩ := h
  simp

def BeginsOperand (ts : List Lexeme) : Prop :=
  ∃ t us, ts = t :: us ∧ t.token ≠ .closeParen ∧ t.token ≠ .not

theorem Primary.begins {ts : List Lexeme} {e : Tree} (h : Primary ts e) : BeginsOperand ts := by
  cases h with
  | literal hv =>
    refine ⟨_, [], rfl, ?_, ?_⟩ <;> (intro ht; rw [ht] at hv; cases hv)
  | group h => exact ⟨_, _, rfl, by simp, by simp⟩
  | context hr hs => exact ⟨_, [], rfl, by simp, by simp⟩
  | call h => exact ⟨_, _, rfl, by simp, by simp⟩

theorem BeginsOperand.append {ts : List Lexeme} (h : BeginsOperand ts) (us : List Lexeme) :
    BeginsOperand (ts ++ us) := by
  obtain ⟨t, vs, rfl, ht⟩ := h
  exact ⟨t, vs ++ us, rfl, ht⟩

theorem Postfix.begins {ts : List Lexeme} {e : Tree} (h : Postfix ts e) : BeginsOperand ts := by
  cases h with
  | primary h => exact h.begins
  | property h hn => exact h.begins.append _
  | index h hi =>
    rw [List.append_assoc]
    exact h.begins.append _
  | apply h hc ha =>
    rw [List.append_assoc]
    exact h.begins.append _

theorem Unary.begins {ts : List Lexeme} {e : Tree} (h : Unary ts e) : Begins ts := by
  cases h with
  | not h => exact ⟨_, _, rfl, by simp⟩
  | chain h =>
    obtain ⟨t, us, hts, ht, -⟩ := h.begins
    exact ⟨t, us, hts, ht⟩

theorem Comparison.begins {ts : List Lexeme} {e : Tree} (h : Comparison ts e) : Begins ts := by
  cases h with
  | single h => exact h.begins
  | relation hl ht hr => exact hl.begins.append _

theorem Conjunction.begins {ts : List Lexeme} {e : Tree} (h : Conjunction ts e) : Begins ts := by
  cases h with
  | single h => exact h.begins
  | and hl hr => exact hl.begins.append _

theorem Disjunction.begins {ts : List Lexeme} {e : Tree} (h : Disjunction ts e) : Begins ts := by
  cases h with
  | single h => exact h.begins
  | or hl hr => exact hl.begins.append _

theorem Listed.begins {ts : List Lexeme} {es : List Tree} : Listed ts es → Begins ts
  | .one h => h.begins
  | .more hl _ => hl.begins.append _

/-- A function of the parser reads the tree from the tokens before `rest`. -/
def Returns (parse : Nat → List Lexeme → Parsed Expr) (n : Nat) (ts rest : List Lexeme)
    (t : Tree) : Prop :=
  ∃ e, tree e = t ∧ parse n (ts ++ rest) = .ok (e, rest)

section Loop

variable {α β γ : Type} {view : β → γ} {parse : Nat → List Lexeme → Parsed α}
  {tail : Nat → β → List Lexeme → Parsed α} {n : Nat} {ts us rest : List Lexeme} {t t' : γ}

/-- It comes to the function that continues with what has been read, with a budget that has lost
no more than one for each token. -/
def Continues (view : β → γ) (parse : Nat → List Lexeme → Parsed α)
    (tail : Nat → β → List Lexeme → Parsed α) (n : Nat) (ts rest : List Lexeme) (t : γ) : Prop :=
  ∃ m x, n ≤ m + ts.length ∧ view x = t ∧ parse n (ts ++ rest) = tail m x rest

theorem Continues.start {x : β} (hb : Begins ts) (ht : view x = t)
    (hp : parse (n + 1) (ts ++ rest) = tail n x rest) :
    Continues view parse tail (n + 1) ts rest t := by
  have hlen := hb.length_pos
  exact ⟨n, x, by omega, ht, hp⟩

theorem Continues.turn {k : Nat} (h : Continues view parse tail n ts (us ++ rest) t)
    (hus : 0 < us.length) (hn : ts.length + k < n)
    (hturn : ∀ m x, k ≤ m → view x = t →
      ∃ y, view y = t' ∧ tail (m + 1) x (us ++ rest) = tail m y rest) :
    Continues view parse tail n (ts ++ us) rest t' := by
  obtain ⟨m, x, hm, hx, hp⟩ := h
  obtain ⟨m, rfl⟩ : ∃ k, m = k + 1 := ⟨m - 1, by omega⟩
  obtain ⟨y, hy, ht⟩ := hturn m x (by omega) hx
  refine ⟨m, y, ?_, hy, ?_⟩
  · rw [List.length_append]
    omega
  · rw [List.append_assoc, hp, ht]

end Loop

theorem Continues.returns {parse : Nat → List Lexeme → Parsed Expr}
    {tail : Nat → Expr → List Lexeme → Parsed Expr} {n : Nat} {ts rest : List Lexeme} {t : Tree}
    (h : Continues tree parse tail n ts rest t) (hn : ts.length < n)
    (hs : ∀ m e, tail (m + 1) e rest = .ok (e, rest)) : Returns parse n ts rest t := by
  obtain ⟨m, e, hm, ht, hp⟩ := h
  obtain ⟨m, rfl⟩ : ∃ k, m = k + 1 := ⟨m - 1, by omega⟩
  exact ⟨e, ht, hp.trans (hs m e)⟩

section Turns

variable {m : Nat} {us rest : List Lexeme} {e : Expr} {l r : Tree} {s s' : Span}

theorem or_turn (hl : tree e = l) (hr : Returns (parseAnd stop) m us rest r) :
    ∃ e', tree e' = .binary .or l r ∧
      orTail stop (m + 1) e (⟨.or, s⟩ :: us ++ rest) = orTail stop m e' rest := by
  obtain ⟨right, rfl, hp⟩ := hr
  refine ⟨joined .or e right, by rw [tree_joined, hl], ?_⟩
  simp only [List.cons_append, orTail, hp]

theorem and_turn (hl : tree e = l) (hr : Returns (parseComparison stop) m us rest r) :
    ∃ e', tree e' = .binary .and l r ∧
      andTail stop (m + 1) e (⟨.and, s⟩ :: us ++ rest) = andTail stop m e' rest := by
  obtain ⟨right, rfl, hp⟩ := hr
  refine ⟨joined .and e right, by rw [tree_joined, hl], ?_⟩
  simp only [List.cons_append, andTail, hp]

theorem relation_turn {t : Lexeme} {op : BinaryOp} (ht : Relation t.token op) (hl : tree e = l)
    (hr : Returns (parseUnary stop) m us rest r) :
    ∃ e', tree e' = .binary op l r ∧
      comparisonTail stop (m + 1) e (t :: us ++ rest) = comparisonTail stop m e' rest := by
  obtain ⟨right, rfl, hp⟩ := hr
  refine ⟨joined op e right, by rw [tree_joined, hl], ?_⟩
  simp only [List.cons_append, comparisonTail, comparison?_eq_some.2 ht, hp]

theorem property_turn {t : Lexeme} {name : String} (ht : Name t.token name) (hl : tree e = l) :
    ∃ e', tree e' = .property l name ∧
      postfixTail stop (m + 1) e ([⟨.dot, s⟩, t] ++ rest) = postfixTail stop m e' rest := by
  refine ⟨.property ⟨e.span.start, t.span.stop⟩ e name, by rw [tree, hl], ?_⟩
  simp only [List.cons_append, List.nil_append, postfixTail, parseProperty,
    propertyName?_eq_some.2 ht]

theorem index_turn (hl : tree e = l)
    (hr : Returns (parseOr stop) m us (⟨.closeBracket, s'⟩ :: rest) r) :
    ∃ e', tree e' = .index l r ∧
      postfixTail stop (m + 1) e (⟨.openBracket, s⟩ :: us ++ [⟨.closeBracket, s'⟩] ++ rest) =
        postfixTail stop m e' rest := by
  obtain ⟨key, rfl, hp⟩ := hr
  refine ⟨.index ⟨e.span.start, s'.stop⟩ e key, by rw [tree, hl], ?_⟩
  simp only [List.cons_append, List.append_assoc, List.nil_append, postfixTail, hp, expect, if_true]

theorem apply_turn {es : List Expr} (hl : tree e = l)
    (hr : parseArguments stop m (us ++ ⟨.closeParen, s'⟩ :: rest) = .ok ((es, s'), rest)) :
    ∃ e', tree e' = .apply l (trees es) ∧
      postfixTail stop (m + 1) e (⟨.openParen, s⟩ :: us ++ [⟨.closeParen, s'⟩] ++ rest) =
        postfixTail stop m e' rest := by
  refine ⟨.apply ⟨e.span.start, s'.stop⟩ e es, by rw [tree, hl], ?_⟩
  simp only [List.cons_append, List.append_assoc, List.nil_append, postfixTail, hr]

theorem comma_turn {soFar : List Expr} {ts : List Tree} (hl : trees soFar.reverse = ts)
    (hr : Returns (parseOr stop) m us rest r) :
    ∃ all, trees all.reverse = ts ++ [r] ∧
      argumentsTail stop (m + 1) soFar (⟨.comma, s⟩ :: us ++ rest) =
        argumentsTail stop m all rest := by
  obtain ⟨next, rfl, hp⟩ := hr
  refine ⟨next :: soFar, ?_, ?_⟩
  · rw [List.reverse_cons, trees_append, hl]
    rfl
  · simp only [List.cons_append, argumentsTail, hp]

end Turns

theorem parseUnary_of_operand {n : Nat} {ts rest : List Lexeme} {e : Expr}
    (hb : BeginsOperand ts) (h : parsePrimary stop n ts = .ok (e, rest)) :
    parseUnary stop (n + 1) ts = postfixTail stop n e rest := by
  obtain ⟨t, us, rfl, -, hnot⟩ := hb
  unfold parseUnary
  split
  next heq =>
    cases heq
    exact absurd rfl hnot
  next => simp only [h]

theorem parseArguments_of_begins {n : Nat} {ts rest : List Lexeme} {e : Expr} (hb : Begins ts)
    (h : parseOr stop n ts = .ok (e, rest)) :
    parseArguments stop (n + 1) ts = argumentsTail stop n [e] rest := by
  obtain ⟨t, us, rfl, hclose⟩ := hb
  unfold parseArguments
  split
  next heq =>
    cases heq
    exact absurd rfl hclose
  next => simp only [h]

theorem parsePrimary_literal {n : Nat} {t : Lexeme} {v : Literal} (h : Value t.token v)
    (rest : List Lexeme) : Returns (parsePrimary stop) (n + 1) [t] rest (.literal v) := by
  refine ⟨.literal t.span v, rfl, ?_⟩
  obtain ⟨token, span⟩ := t
  cases h <;> simp [parsePrimary, literal?]

theorem parsePrimary_context {n : Nat} {name : String} {s : Span} {rest : List Lexeme}
    (h : isContext name = true) (hrest : peek rest ≠ some .openParen) :
    Returns (parsePrimary stop) (n + 1) [⟨.ident name, s⟩] rest
      (.context (Text.asciiLower name)) := by
  refine ⟨.context s (Text.asciiLower name), rfl, ?_⟩
  simp only [List.cons_append, List.nil_append]
  unfold parsePrimary
  split
  next heq => cases heq
  next heq => cases heq
  next heq =>
    cases heq
    exact absurd rfl hrest
  next heq =>
    cases heq
    simp only [h, if_true]
  next hno heq =>
    cases heq
    exact absurd rfl (hno name s)

-- The numbers grow from the tightest rule to the loosest one: a rule needs one more than the rules
-- below it, and eight for each token outweigh the way back up from behind a parenthesis.
mutual

theorem Disjunction.parses {ts : List Lexeme} {t : Tree} : Disjunction ts t →
    ∀ n rest, 8 * ts.length + 5 ≤ n → Stops 1 rest →
      Continues tree (parseOr stop) (orTail stop) n ts rest t
  | .single h, n + 1, rest, hn, hs => by
    obtain ⟨e, ht, hp⟩ := (h.parses n rest (by omega) (hs.mono (by decide))).returns (by omega)
      (andTail_stops hs)
    exact .start h.begins ht (by simp only [parseOr, hp])
  | @Disjunction.or ts us l r s hl hr, n, rest, hn, hs => by
    simp only [List.length_append, List.length_cons] at hn
    have hleft := hl.parses n (⟨.or, s⟩ :: us ++ rest) (by omega) (.cons (Nat.le_refl 1) _)
    refine hleft.turn (k := 8 * us.length + 4) (by simp) (by omega) fun m e hm ht => ?_
    have hright := hr.parses m rest hm (hs.mono (by decide))
    exact or_turn ht (hright.returns (by omega) (andTail_stops hs))

theorem Conjunction.parses {ts : List Lexeme} {t : Tree} : Conjunction ts t →
    ∀ n rest, 8 * ts.length + 4 ≤ n → Stops 2 rest →
      Continues tree (parseAnd stop) (andTail stop) n ts rest t
  | .single h, n + 1, rest, hn, hs => by
    obtain ⟨e, ht, hp⟩ := (h.parses n rest (by omega) (hs.mono (by decide))).returns (by omega)
      (comparisonTail_stops hs)
    exact .start h.begins ht (by simp only [parseAnd, hp])
  | @Conjunction.and ts us l r s hl hr, n, rest, hn, hs => by
    simp only [List.length_append, List.length_cons] at hn
    have hleft := hl.parses n (⟨.and, s⟩ :: us ++ rest) (by omega) (.cons (Nat.le_refl 2) _)
    refine hleft.turn (k := 8 * us.length + 3) (by simp) (by omega) fun m e hm ht => ?_
    have hright := hr.parses m rest hm (hs.mono (by decide))
    exact and_turn ht (hright.returns (by omega) (comparisonTail_stops hs))

theorem Comparison.parses {ts : List Lexeme} {t : Tree} : Comparison ts t →
    ∀ n rest, 8 * ts.length + 3 ≤ n → Stops 3 rest →
      Continues tree (parseComparison stop) (comparisonTail stop) n ts rest t
  | .single h, n + 1, rest, hn, hs => by
    obtain ⟨e, ht, hp⟩ := h.parses n rest (by omega) hs
    exact .start h.begins ht (by simp only [parseComparison, hp])
  | @Comparison.relation ts us l r t op hl hop hr, n, rest, hn, hs => by
    simp only [List.length_append, List.length_cons] at hn
    have hb : binding t.token ≤ 3 := Nat.le_of_eq hop.binding_eq
    have hleft := hl.parses n (t :: us ++ rest) (by omega) (.cons hb _)
    refine hleft.turn (k := 8 * us.length + 2) (by simp) (by omega) fun m e hm ht => ?_
    exact relation_turn hop ht (hr.parses m rest hm hs)

theorem Unary.parses {ts : List Lexeme} {t : Tree} : Unary ts t →
    ∀ n rest, 8 * ts.length + 2 ≤ n → Stops 3 rest → Returns (parseUnary stop) n ts rest t
  | @Unary.not ts t s h, n + 1, rest, hn, hs => by
    simp only [List.length_cons] at hn
    obtain ⟨e, rfl, hp⟩ := h.parses n rest (by omega) hs
    refine ⟨.not ⟨s.start, e.span.stop⟩ e, rfl, ?_⟩
    simp only [List.cons_append, parseUnary, hp]
  | .chain h, n, rest, hn, hs => by
    have hc : peek rest = some .openParen → Callable ts :=
      fun hp => absurd hp (hs.not_peek (by decide))
    exact (h.parses n rest (by omega) hc).returns (by omega) (postfixTail_stops hs)

theorem Postfix.parses {ts : List Lexeme} {t : Tree} : Postfix ts t →
    ∀ n rest, 8 * ts.length + 1 ≤ n → (peek rest = some .openParen → Callable ts) →
      Continues tree (parseUnary stop) (postfixTail stop) n ts rest t
  | .primary h, n + 1, rest, hn, hc => by
    obtain ⟨e, ht, hp⟩ := h.parses n rest (by omega) hc
    have hb := Unary.begins (.chain (.primary h))
    exact .start hb ht (parseUnary_of_operand (h.begins.append rest) hp)
  | @Postfix.property ts e s t name h hname, n, rest, hn, hc => by
    simp only [List.length_append, List.length_cons] at hn
    have htarget := h.parses n ([⟨.dot, s⟩, t] ++ rest) (by omega) (by simp [peek])
    refine htarget.turn (k := 0) (by simp) (by omega) fun m e hm ht => ?_
    exact property_turn hname ht
  | @Postfix.index ts us e i s s' h hi, n, rest, hn, hc => by
    simp only [List.length_append, List.length_cons] at hn
    rw [List.append_assoc]
    have htarget := h.parses n (⟨.openBracket, s⟩ :: us ++ [⟨.closeBracket, s'⟩] ++ rest)
      (by omega) (by simp [peek])
    refine htarget.turn (k := 8 * us.length + 5) (by simp) (by omega) fun m e hm ht => ?_
    have hs : Stops 0 (⟨.closeBracket, s'⟩ :: rest) := .cons (Nat.le_refl 0) rest
    have hkey := hi.parses m (⟨.closeBracket, s'⟩ :: rest) hm (hs.mono (by decide))
    exact index_turn ht (hkey.returns (by omega) (orTail_stops hs))
  | @Postfix.apply ts us e es s s' h hcall ha, n, rest, hn, hc => by
    simp only [List.length_append, List.length_cons] at hn
    rw [List.append_assoc]
    have htarget := h.parses n (⟨.openParen, s⟩ :: us ++ [⟨.closeParen, s'⟩] ++ rest)
      (by omega) fun _ => hcall
    refine htarget.turn (k := 8 * us.length + 6) (by simp) (by omega) fun m e hm ht => ?_
    obtain ⟨args, rfl, hp⟩ := ha.parses m s' rest hm
    exact apply_turn ht hp

theorem Primary.parses {ts : List Lexeme} {t : Tree} : Primary ts t →
    ∀ n rest, 8 * ts.length ≤ n → (peek rest = some .openParen → Callable ts) →
      Returns (parsePrimary stop) n ts rest t
  | .literal hv, n + 1, rest, hn, hc => parsePrimary_literal hv rest
  | @Primary.group ts e s s' h, n + 1, rest, hn, hc => by
    simp only [List.length_append, List.length_cons] at hn
    have hs : Stops 0 (⟨.closeParen, s'⟩ :: rest) := .cons (Nat.le_refl 0) rest
    obtain ⟨e, rfl, hp⟩ := (h.parses n (⟨.closeParen, s'⟩ :: rest) (by omega)
      (hs.mono (by decide))).returns (by omega) (orTail_stops hs)
    refine ⟨e.withSpan ⟨s.start, s'.stop⟩, tree_withSpan _ _, ?_⟩
    simp only [List.cons_append, List.append_assoc, List.nil_append, parsePrimary, hp, expect,
      if_true]
  | .context hroot hsame, n + 1, rest, hn, hc => by
    refine parsePrimary_context ((isContext_iff _).2 ⟨_, hroot, hsame⟩) fun hp => ?_
    exact hc hp _ _ rfl
  | @Primary.call ts name es s s' s'' h, n + 1, rest, hn, hc => by
    simp only [List.length_append, List.length_cons] at hn
    obtain ⟨args, rfl, hp⟩ := h.parses n s'' rest (by omega)
    refine ⟨.call ⟨s.start, s''.stop⟩ name args, rfl, ?_⟩
    simp only [List.cons_append, List.append_assoc, List.nil_append, parsePrimary, hp]

theorem Arguments.parses {ts : List Lexeme} {args : List Tree} : Arguments ts args →
    ∀ n s rest, 8 * ts.length + 6 ≤ n → ∃ es, trees es = args ∧
      parseArguments stop n (ts ++ ⟨.closeParen, s⟩ :: rest) = .ok ((es, s), rest)
  | .none, n + 1, s, rest, hn => ⟨[], rfl, by simp only [List.nil_append, parseArguments]⟩
  | .some h, n, s, rest, hn => by
    have hs : Stops 0 (⟨.closeParen, s⟩ :: rest) := .cons (Nat.le_refl 0) rest
    obtain ⟨m, es, hm, ht, hp⟩ := h.parses n (⟨.closeParen, s⟩ :: rest) hn hs
    obtain ⟨m, rfl⟩ : ∃ k, m = k + 1 := ⟨m - 1, by omega⟩
    refine ⟨es.reverse, ht, ?_⟩
    simp only [hp, argumentsTail, expect, if_true]

theorem Listed.parses {ts : List Lexeme} {args : List Tree} : Listed ts args →
    ∀ n rest, 8 * ts.length + 6 ≤ n → Stops 0 rest →
      Continues (fun es => trees es.reverse) (parseArguments stop) (argumentsTail stop) n ts rest
        args
  | .one h, n + 1, rest, hn, hs => by
    obtain ⟨e, rfl, hp⟩ := (h.parses n rest (by omega) (hs.mono (by decide))).returns (by omega)
      (orTail_stops hs)
    exact .start h.begins rfl (parseArguments_of_begins (h.begins.append rest) hp)
  | @Listed.more ts us es e s hl hr, n, rest, hn, hs => by
    simp only [List.length_append, List.length_cons] at hn
    have hsoFar := hl.parses n (⟨.comma, s⟩ :: us ++ rest) (by omega) (.cons (Nat.le_refl 0) _)
    refine hsoFar.turn (k := 8 * us.length + 5) (by simp) (by omega) fun m es hm ht => ?_
    have hnext := hr.parses m rest hm (hs.mono (by decide))
    exact comma_turn ht (hnext.returns (by omega) (orTail_stops hs))

end

theorem parseTokens_complete {ts : List Lexeme} {t : Tree} (h : Disjunction ts t) :
    ∃ e, parseTokens ts = .ok e ∧ tree e = t := by
  have hb : 8 * ts.length + 5 ≤ budget ts := by
    unfold budget
    omega
  have hparse : Continues tree (parseOr (endOf ts)) (orTail (endOf ts)) (budget ts) ts [] t :=
    h.parses (budget ts) [] hb (.nil 1)
  obtain ⟨e, ht, hp⟩ := hparse.returns (by omega) (orTail_stops (.nil 0))
  rw [List.append_nil] at hp
  exact ⟨e, by simp only [parseTokens, hp], ht⟩

/-- The parser reads a tree from all of its tokens if and only if the grammar derives the tree from
them. -/
theorem parseTokens_eq_ok_iff (ts : List Lexeme) (t : Tree) :
    (∃ e, parseTokens ts = .ok e ∧ tree e = t) ↔ Disjunction ts t := by
  constructor
  · rintro ⟨e, he, rfl⟩
    exact parseTokens_sound he
  · exact parseTokens_complete

end WorkflowLint.Expr.Grammar
