import WorkflowLint.Proofs.Expr.Grammar

/-! Whatever the parser returns, the grammar derives from the tokens that were taken. -/
namespace WorkflowLint.Expr.Grammar

def Takes (rule : List Lexeme → Prop) (ts rest : List Lexeme) : Prop :=
  ∃ used, ts = used ++ rest ∧ rule used

theorem Takes.nothing {rule : List Lexeme → Prop} (ts : List Lexeme) (h : rule []) :
    Takes rule ts ts := ⟨[], rfl, h⟩

theorem Takes.imp {rule rule' : List Lexeme → Prop} {ts rest : List Lexeme}
    (h : Takes rule ts rest) (hi : ∀ used, rule used → rule' used) : Takes rule' ts rest := by
  obtain ⟨used, hts, hr⟩ := h
  exact ⟨used, hts, hi used hr⟩

theorem Takes.append {rule rule' : List Lexeme → Prop} {ts mid rest : List Lexeme}
    (h : Takes rule ts mid)
    (h' : ∀ used, rule used → Takes (fun more => rule' (used ++ more)) mid rest) :
    Takes rule' ts rest := by
  obtain ⟨used, rfl, hr⟩ := h
  obtain ⟨more, rfl, hr'⟩ := h' used hr
  exact ⟨used ++ more, (List.append_assoc ..).symm, hr'⟩

theorem Takes.cons {rule : List Lexeme → Prop} {ts rest : List Lexeme} (t : Lexeme)
    (h : Takes (fun used => rule (t :: used)) ts rest) : Takes rule (t :: ts) rest := by
  obtain ⟨used, rfl, hr⟩ := h
  exact ⟨t :: used, rfl, hr⟩

theorem peek_eq_some {ts : List Lexeme} {t : Token} :
    peek ts = some t ↔ ∃ s rest, ts = ⟨t, s⟩ :: rest := by
  cases ts with
  | nil => simp [peek]
  | cons u us =>
    obtain ⟨token, span⟩ := u
    simp [peek, eq_comm]

theorem expect_ok {stop : Nat} {wanted : Token} {ts rest : List Lexeme} {s : Span}
    (h : expect stop wanted ts = .ok (s, rest)) : ts = ⟨wanted, s⟩ :: rest := by
  cases ts with
  | nil => cases h
  | cons t ts =>
    simp only [expect] at h
    split at h
    next ht =>
      cases h
      subst ht
      rfl
    next => cases h

theorem parseProperty_ok {stop : Nat} {target e : Expr} {ts rest : List Lexeme}
    (h : parseProperty stop target ts = .ok (e, rest)) :
    ∃ t name, ts = t :: rest ∧ Name t.token name ∧ tree e = .property (tree target) name := by
  cases ts with
  | nil => cases h
  | cons t ts =>
    simp only [parseProperty] at h
    split at h
    next name hn =>
      cases h
      exact ⟨t, name, rfl, propertyName?_eq_some.1 hn, rfl⟩
    next => cases h

/-- What the functions of the parser return under a budget. A function that continues with an
operand is given the tokens `done` of that operand. -/
structure SoundAt (stop n : Nat) : Prop where
  or : ∀ {ts e rest}, parseOr stop n ts = .ok (e, rest) →
    Takes (fun used => Disjunction used (tree e)) ts rest
  orTail : ∀ {left done ts e rest}, orTail stop n left ts = .ok (e, rest) →
    Disjunction done (tree left) → Takes (fun used => Disjunction (done ++ used) (tree e)) ts rest
  and : ∀ {ts e rest}, parseAnd stop n ts = .ok (e, rest) →
    Takes (fun used => Conjunction used (tree e)) ts rest
  andTail : ∀ {left done ts e rest}, andTail stop n left ts = .ok (e, rest) →
    Conjunction done (tree left) → Takes (fun used => Conjunction (done ++ used) (tree e)) ts rest
  comparison : ∀ {ts e rest}, parseComparison stop n ts = .ok (e, rest) →
    Takes (fun used => Comparison used (tree e)) ts rest
  comparisonTail : ∀ {left done ts e rest}, comparisonTail stop n left ts = .ok (e, rest) →
    Comparison done (tree left) → Takes (fun used => Comparison (done ++ used) (tree e)) ts rest
  unary : ∀ {ts e rest}, parseUnary stop n ts = .ok (e, rest) →
    Takes (fun used => Unary used (tree e)) ts rest
  -- A lone name before a parenthesis has been taken for a call already.
  postfixTail : ∀ {target done ts e rest}, postfixTail stop n target ts = .ok (e, rest) →
    Postfix done (tree target) → (peek ts = some .openParen → Callable done) →
    Takes (fun used => Postfix (done ++ used) (tree e)) ts rest
  primary : ∀ {ts e rest}, parsePrimary stop n ts = .ok (e, rest) →
    Takes (fun used => Primary used (tree e) ∧ (peek rest = some .openParen → Callable used))
      ts rest
  arguments : ∀ {ts es s rest}, parseArguments stop n ts = .ok ((es, s), rest) →
    Takes (fun used => ∃ args, used = args ++ [⟨.closeParen, s⟩] ∧ Arguments args (trees es))
      ts rest
  argumentsTail : ∀ {soFar done ts es s rest},
    argumentsTail stop n soFar ts = .ok ((es, s), rest) → Listed done (trees soFar.reverse) →
    Takes (fun used => ∃ args, used = args ++ [⟨.closeParen, s⟩] ∧
      Listed (done ++ args) (trees es)) ts rest

variable {stop n : Nat}

theorem parseOr_sound (h : SoundAt stop n) {ts e rest}
    (hp : parseOr stop (n + 1) ts = .ok (e, rest)) :
    Takes (fun used => Disjunction used (tree e)) ts rest := by
  unfold parseOr at hp
  split at hp
  next => cases hp
  next left mid hl => exact (h.and hl).append fun used hu => h.orTail hp (.single hu)

theorem orTail_sound (h : SoundAt stop n) {left done ts e rest}
    (hp : orTail stop (n + 1) left ts = .ok (e, rest)) (hd : Disjunction done (tree left)) :
    Takes (fun used => Disjunction (done ++ used) (tree e)) ts rest := by
  unfold orTail at hp
  split at hp
  next s us =>
    split at hp
    next => cases hp
    next right mid hr =>
      refine .cons _ ((h.and hr).append fun used hu => ?_)
      have hj : Disjunction (done ++ ⟨.or, s⟩ :: used) (tree (joined .or left right)) := .or hd hu
      exact (h.orTail hp hj).imp fun more hm => by simpa using hm
  next =>
    cases hp
    exact .nothing _ (by simpa using hd)

theorem parseAnd_sound (h : SoundAt stop n) {ts e rest}
    (hp : parseAnd stop (n + 1) ts = .ok (e, rest)) :
    Takes (fun used => Conjunction used (tree e)) ts rest := by
  unfold parseAnd at hp
  split at hp
  next => cases hp
  next left mid hl => exact (h.comparison hl).append fun used hu => h.andTail hp (.single hu)

theorem andTail_sound (h : SoundAt stop n) {left done ts e rest}
    (hp : andTail stop (n + 1) left ts = .ok (e, rest)) (hd : Conjunction done (tree left)) :
    Takes (fun used => Conjunction (done ++ used) (tree e)) ts rest := by
  unfold andTail at hp
  split at hp
  next s us =>
    split at hp
    next => cases hp
    next right mid hr =>
      refine .cons _ ((h.comparison hr).append fun used hu => ?_)
      have hj : Conjunction (done ++ ⟨.and, s⟩ :: used) (tree (joined .and left right)) :=
        .and hd hu
      exact (h.andTail hp hj).imp fun more hm => by simpa using hm
  next =>
    cases hp
    exact .nothing _ (by simpa using hd)

theorem parseComparison_sound (h : SoundAt stop n) {ts e rest}
    (hp : parseComparison stop (n + 1) ts = .ok (e, rest)) :
    Takes (fun used => Comparison used (tree e)) ts rest := by
  unfold parseComparison at hp
  split at hp
  next => cases hp
  next left mid hl =>
    exact (h.unary hl).append fun used hu => h.comparisonTail hp (.single hu)

theorem comparisonTail_sound (h : SoundAt stop n) {left done ts e rest}
    (hp : comparisonTail stop (n + 1) left ts = .ok (e, rest)) (hd : Comparison done (tree left)) :
    Takes (fun used => Comparison (done ++ used) (tree e)) ts rest := by
  unfold comparisonTail at hp
  split at hp
  next =>
    cases hp
    exact .nothing _ (by simpa using hd)
  next t us =>
    split at hp
    next =>
      cases hp
      exact .nothing _ (by simpa using hd)
    next op hop =>
      split at hp
      next => cases hp
      next right mid hr =>
        refine .cons _ ((h.unary hr).append fun used hu => ?_)
        have hj : Comparison (done ++ t :: used) (tree (joined op left right)) :=
          .relation hd (comparison?_eq_some.1 hop) hu
        exact (h.comparisonTail hp hj).imp fun more hm => by simpa using hm

theorem parseUnary_sound (h : SoundAt stop n) {ts e rest}
    (hp : parseUnary stop (n + 1) ts = .ok (e, rest)) :
    Takes (fun used => Unary used (tree e)) ts rest := by
  unfold parseUnary at hp
  split at hp
  next s us =>
    split at hp
    next => cases hp
    next operand mid ho =>
      cases hp
      exact .cons _ ((h.unary ho).imp fun used hu => .not hu)
  next =>
    split at hp
    next => cases hp
    next target mid ht =>
      refine (h.primary ht).append fun used hu => ?_
      exact (h.postfixTail hp (.primary hu.1) hu.2).imp fun more hm => .chain hm

theorem postfixTail_sound (h : SoundAt stop n) {target done ts e rest}
    (hp : postfixTail stop (n + 1) target ts = .ok (e, rest)) (hd : Postfix done (tree target))
    (hc : peek ts = some .openParen → Callable done) :
    Takes (fun used => Postfix (done ++ used) (tree e)) ts rest := by
  unfold postfixTail at hp
  split at hp
  next s us =>
    split at hp
    next => cases hp
    next e' mid he =>
      obtain ⟨t, name, rfl, ht, htree⟩ := parseProperty_ok he
      have hj : Postfix (done ++ [⟨.dot, s⟩, t]) (tree e') := htree ▸ .property hd ht
      refine .cons _ (.cons _ ?_)
      exact (h.postfixTail hp hj fun _ => .of_two_le (by simp)).imp fun more hm => by simpa using hm
  next s us =>
    split at hp
    next => cases hp
    next key mid hk =>
      split at hp
      next => cases hp
      next close mid' hclose =>
        obtain rfl := expect_ok hclose
        refine .cons _ ((h.or hk).append fun used hu => .cons _ ?_)
        have hj : Postfix (done ++ ⟨.openBracket, s⟩ :: used ++ [⟨.closeBracket, close⟩])
            (tree (.index ⟨target.span.start, close.stop⟩ target key)) := .index hd hu
        exact (h.postfixTail hp hj fun _ => .closed _ _ _ _).imp fun more hm => by simpa using hm
  next s us =>
    split at hp
    next => cases hp
    next args close mid ha =>
      refine .cons _ ((h.arguments ha).append fun used hu => ?_)
      obtain ⟨inner, rfl, hargs⟩ := hu
      have hj : Postfix (done ++ ⟨.openParen, s⟩ :: inner ++ [⟨.closeParen, close⟩])
          (tree (.apply ⟨target.span.start, close.stop⟩ target args)) := .apply hd (hc rfl) hargs
      exact (h.postfixTail hp hj fun _ => .closed _ _ _ _).imp fun more hm => by simpa using hm
  next =>
    cases hp
    exact .nothing _ (by simpa using hd)

theorem parsePrimary_sound (h : SoundAt stop n) {ts e rest}
    (hp : parsePrimary stop (n + 1) ts = .ok (e, rest)) :
    Takes (fun used => Primary used (tree e) ∧ (peek rest = some .openParen → Callable used))
      ts rest := by
  unfold parsePrimary at hp
  split at hp
  next => cases hp
  next s us =>
    split at hp
    next => cases hp
    next inner mid hi =>
      split at hp
      next => cases hp
      next close mid' hclose =>
        obtain rfl := expect_ok hclose
        cases hp
        refine .cons _ ((h.or hi).append fun used hu => .cons _ (.nothing _ ⟨?_, fun _ => ?_⟩))
        · rw [tree_withSpan]
          exact .group hu
        · exact .of_two_le (by simp)
  next name s s' us =>
    split at hp
    next => cases hp
    next args close mid ha =>
      cases hp
      obtain ⟨used, rfl, inner, rfl, hargs⟩ := h.arguments ha
      refine ⟨⟨.ident name, s⟩ :: ⟨.openParen, s'⟩ :: inner ++ [⟨.closeParen, close⟩],
        by simp, .call hargs, fun _ => .of_two_le (by simp)⟩
  next name s us hnot =>
    split at hp
    next hctx =>
      cases hp
      obtain ⟨root, hroot, hsame⟩ := (isContext_iff name).1 hctx
      refine ⟨[⟨.ident name, s⟩], rfl, .context hroot hsame, fun hpeek => ?_⟩
      obtain ⟨s', us, rfl⟩ := peek_eq_some.1 hpeek
      exact absurd rfl (hnot s' us)
    next => cases hp
  next t us _ _ _ =>
    split at hp
    next v hv =>
      cases hp
      refine ⟨[t], rfl, .literal (literal?_eq_some.1 hv), fun _ name s ht => ?_⟩
      cases ht
      cases hv
    next => cases hp

theorem parseArguments_sound (h : SoundAt stop n) {ts es s rest}
    (hp : parseArguments stop (n + 1) ts = .ok ((es, s), rest)) :
    Takes (fun used => ∃ args, used = args ++ [⟨.closeParen, s⟩] ∧ Arguments args (trees es))
      ts rest := by
  unfold parseArguments at hp
  split at hp
  next =>
    cases hp
    exact ⟨[⟨.closeParen, s⟩], rfl, [], rfl, .none⟩
  next =>
    split at hp
    next => cases hp
    next first mid hf =>
      refine (h.or hf).append fun used hu => ?_
      refine (h.argumentsTail hp (.one hu)).imp fun more hm => ?_
      obtain ⟨args, rfl, hargs⟩ := hm
      exact ⟨used ++ args, by simp, .some hargs⟩

theorem argumentsTail_sound (h : SoundAt stop n) {soFar done ts es s rest}
    (hp : argumentsTail stop (n + 1) soFar ts = .ok ((es, s), rest))
    (hd : Listed done (trees soFar.reverse)) :
    Takes (fun used => ∃ args, used = args ++ [⟨.closeParen, s⟩] ∧
      Listed (done ++ args) (trees es)) ts rest := by
  unfold argumentsTail at hp
  split at hp
  next s' us =>
    split at hp
    next => cases hp
    next next mid hn =>
      refine .cons _ ((h.or hn).append fun used hu => ?_)
      have hj : Listed (done ++ ⟨.comma, s'⟩ :: used) (trees (next :: soFar).reverse) := by
        rw [List.reverse_cons, trees_append]
        exact .more hd hu
      refine (h.argumentsTail hp hj).imp fun more hm => ?_
      obtain ⟨args, rfl, hargs⟩ := hm
      exact ⟨⟨.comma, s'⟩ :: used ++ args, by simp, by simpa using hargs⟩
  next =>
    split at hp
    next => cases hp
    next close mid hclose =>
      obtain rfl := expect_ok hclose
      cases hp
      exact ⟨[⟨.closeParen, s⟩], rfl, [], rfl, by simpa using hd⟩

/-- Every function is sound under every budget: without one it returns nothing, and with one more
it is what the callees under the budget left make it. -/
theorem soundAt (stop n : Nat) : SoundAt stop n := by
  induction n with
  | zero => constructor <;> (intros; contradiction)
  | succ n h =>
    exact ⟨parseOr_sound h, orTail_sound h, parseAnd_sound h, andTail_sound h,
      parseComparison_sound h, comparisonTail_sound h, parseUnary_sound h, postfixTail_sound h,
      parsePrimary_sound h, parseArguments_sound h, argumentsTail_sound h⟩

theorem parseTokens_sound {ts : List Lexeme} {e : Expr} (h : parseTokens ts = .ok e) :
    Disjunction ts (tree e) := by
  unfold parseTokens at h
  split at h
  next => cases h
  next e' he =>
    cases h
    obtain ⟨used, hts, hu⟩ := (soundAt _ _).or he
    rw [List.append_nil] at hts
    exact hts ▸ hu
  next => cases h

end WorkflowLint.Expr.Grammar
