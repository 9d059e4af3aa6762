import WorkflowLint.Proofs.Expr.Lexemes
import WorkflowLint.Proofs.Expr.Located
import WorkflowLint.Proofs.Expr.Relabel

/-! Places of expressions. A node stands where its tokens do, its parts stand in it one behind the
other, and it is read from the text at its place as if there were nothing else. -/
namespace WorkflowLint.Expr
open Text

/-! Tokens of a node among all tokens -/

theorem Located.ne_nil {ts : List Lexeme} {e : Expr} (h : Located ts e) : ts ≠ [] := by
  obtain ⟨hparse, -, -⟩ := h
  rintro rfl
  exact (Grammar.parseTokens_sound hparse).begins.ne_nil rfl

theorem AllLocated.exists_tokens {ts : List Lexeme} {es : List Expr} {e : Expr} :
    AllLocated ts es → e ∈ es → ∃ before us after, ts = before ++ us ++ after ∧ Located us e
  | @AllLocated.cons us ts first es gap h hs, he => by
    obtain rfl | he := List.mem_cons.mp he
    · exact ⟨gap, us, ts, rfl, h⟩
    · obtain ⟨before, vs, after, rfl, hvs⟩ := hs.exists_tokens he
      exact ⟨gap ++ us ++ before, vs, after, by simp only [List.append_assoc], hvs⟩

theorem Located.exists_tokens {ts : List Lexeme} {e node : Expr} (h : Located ts e)
    (hnode : Contains e node) :
    ∃ before us after, ts = before ++ us ++ after ∧ Located us node := by
  induction hnode with
  | refl => exact ⟨[], ts, [], by simp, h⟩
  | tail _ hchild ih =>
    obtain ⟨before, us, after, rfl, -, -, hparts⟩ := ih
    obtain ⟨before', vs, after', rfl, hvs⟩ := hparts.exists_tokens hchild
    exact ⟨before ++ before', vs, after' ++ after, by simp only [List.append_assoc], hvs⟩

/-! Order -/

theorem exists_first {ts : List Lexeme} (h : ts ≠ []) :
    ∃ t ∈ ts.head?, startOf ts = t.span.start := by
  obtain ⟨t, us, rfl⟩ := List.exists_cons_of_ne_nil h
  exact ⟨t, rfl, rfl⟩

theorem exists_last {ts : List Lexeme} (h : ts ≠ []) :
    ∃ t ∈ ts.getLast?, endOf ts = t.span.stop := by
  obtain rfl | ⟨us, t, rfl⟩ := List.eq_nil_or_concat' ts
  · exact absurd rfl h
  · exact ⟨t, by simp, endOf_concat us t⟩

namespace Apart
variable {ts us : List Lexeme} {t : Lexeme}

theorem of_append (h : Apart (ts ++ us)) : Apart ts ∧ Apart us := by
  obtain ⟨hforward, horder⟩ := h
  obtain ⟨hts, hus, -⟩ := List.pairwise_append.mp horder
  exact ⟨⟨fun t ht => hforward t (List.mem_append_left us ht), hts⟩,
    ⟨fun t ht => hforward t (List.mem_append_right ts ht), hus⟩⟩

theorem startOf_le (h : Apart ts) (ht : t ∈ ts) : startOf ts ≤ t.span.start := by
  cases ts with
  | nil => cases ht
  | cons first ts =>
    obtain rfl | ht := List.mem_cons.mp ht
    · exact Nat.le_refl _
    · have hfirst := h.forward first List.mem_cons_self
      have hbefore := (List.pairwise_cons.mp h.order).1 t ht
      exact Nat.le_trans (Nat.le_of_lt hfirst) hbefore

theorem le_endOf (h : Apart ts) (ht : t ∈ ts) : t.span.stop ≤ endOf ts := by
  obtain rfl | ⟨us, last, rfl⟩ := List.eq_nil_or_concat' ts
  · cases ht
  · rw [endOf_concat]
    obtain ht | ht := List.mem_append.mp ht
    · have hlast := h.forward last (List.mem_append_right us List.mem_cons_self)
      have hbefore := (List.pairwise_append.mp h.order).2.2 t ht last List.mem_cons_self
      exact Nat.le_trans hbefore (Nat.le_of_lt hlast)
    · exact Nat.le_of_eq (congrArg (·.span.stop) (List.mem_singleton.mp ht))

theorem extent_inside {before after : List Lexeme} (h : Apart (before ++ us ++ after))
    (hus : us ≠ []) : (extent us).Inside (extent (before ++ us ++ after)) := by
  have hmem {t : Lexeme} (ht : t ∈ us) : t ∈ before ++ us ++ after :=
    List.mem_append_left after (List.mem_append_right before ht)
  obtain ⟨first, hhead, hstart⟩ := exists_first hus
  obtain ⟨last, hend, hstop⟩ := exists_last hus
  have hfirst := List.mem_of_mem_head? hhead
  have hlast := List.mem_of_mem_getLast? hend
  have hinner := h.of_append.1.of_append.2
  refine ⟨?_, ?_, ?_⟩
  · exact Nat.le_trans (h.startOf_le (hmem hfirst)) (Nat.le_of_eq hstart.symm)
  · exact Nat.le_trans (hinner.startOf_le hlast)
      (Nat.le_trans (Nat.le_of_lt (hinner.forward last hlast)) (Nat.le_of_eq hstop.symm))
  · exact Nat.le_trans (Nat.le_of_eq hstop) (h.le_endOf (hmem hlast))

theorem endOf_le_startOf {before after : List Lexeme} (h : Apart (before ++ after))
    (hts : ts ≠ []) (hus : us ≠ []) (hbefore : ts ⊆ before) (hafter : us ⊆ after) :
    endOf ts ≤ startOf us := by
  obtain ⟨last, hlast, hstop⟩ := exists_last hts
  obtain ⟨first, hfirst, hstart⟩ := exists_first hus
  rw [hstop, hstart]
  exact (List.pairwise_append.mp h.order).2.2 last (hbefore (List.mem_of_mem_getLast? hlast)) first
    (hafter (List.mem_of_mem_head? hfirst))

end Apart

theorem AllLocated.inside {ts : List Lexeme} {es : List Expr} (h : AllLocated ts es)
    (hts : Apart ts) {e : Expr} (he : e ∈ es) : e.span.Inside (extent ts) := by
  obtain ⟨before, us, after, rfl, hus⟩ := h.exists_tokens he
  rw [hus.span_eq]
  exact hts.extent_inside hus.ne_nil

theorem AllLocated.pairwise {ts : List Lexeme} {es : List Expr} : AllLocated ts es → Apart ts →
    es.Pairwise fun a b => a.span.stop ≤ b.span.start
  | .nil _, _ => .nil
  | @AllLocated.cons us ts e es gap h hs, hts => by
    refine .cons ?_ (hs.pairwise hts.of_append.2)
    intro later hlater
    obtain ⟨before, vs, after, rfl, hvs⟩ := hs.exists_tokens hlater
    rw [h.stop_eq, hvs.start_eq]
    exact hts.endOf_le_startOf h.ne_nil hvs.ne_nil (by simp) (by simp)

/-! The text of a node -/

/-- The text from the first to the last of some tokens has just these tokens. -/
theorem Lexes.exists_stretch {text : List Char} {before us after : List Lexeme}
    (h : Lexes 0 text (before ++ us ++ after)) (hus : us ≠ []) :
    ∃ chars, Occupies text chars (extent us) ∧ Lexes (startOf us) chars us := by
  obtain ⟨first, more, hfirst⟩ := List.exists_cons_of_ne_nil hus
  obtain ⟨front, last, hlast⟩ : ∃ front last, us = front ++ [last] :=
    (List.eq_nil_or_concat' us).resolve_left hus
  have hall : before ++ us ++ after = before ++ first :: (more ++ after) := by
    rw [hfirst, List.append_assoc, List.cons_append]
  have hbehind : first :: (more ++ after) = front ++ last :: after := by
    rw [← List.cons_append, ← hfirst, hlast, List.append_assoc, List.singleton_append]
  rw [hall] at h
  obtain ⟨pre, rest, rfl, hstart, hrest⟩ := h.exists_behind
  rw [hbehind] at hrest
  obtain ⟨chars, post, rfl, hstop, hchars⟩ := hrest.exists_before
  rw [Nat.zero_add] at hstart hstop hchars
  have hstartOf : startOf us = byteLength pre := by rw [hfirst, ← hstart]; rfl
  have hendOf : endOf us = byteLength (pre ++ chars) := by
    rw [hlast, endOf_concat, hstop, byteLength_append]
  refine ⟨chars, ⟨pre, post, (List.append_assoc ..).symm, ?_⟩, ?_⟩
  · rw [extent, hstartOf, hendOf]
  · rwa [hstartOf, hlast]

theorem Lexes.exists_moved {offset k : Nat} {text : List Char} {ts : List Lexeme}
    (h : Lexes (offset + k) text ts) :
    ∃ own, Lexes offset text own ∧ ts = own.map (Lexeme.relabel (· + k)) := by
  generalize hsum : offset + k = start at h
  induction h generalizing offset with
  | nil => exact ⟨[], .nil offset, rfl⟩
  | @layout start c rest ts hc _ ih =>
    obtain ⟨own, hown, hts⟩ := @ih (offset + c.utf8Size) (by omega)
    exact ⟨own, .layout hc hown, hts⟩
  | @token start c word rest t ts hc hnext _ ih =>
    obtain ⟨own, hown, rfl⟩ := @ih (offset + byteLength (c :: word)) (by omega)
    refine ⟨_, .token hc hnext hown, ?_⟩
    have hstop : start + byteLength (c :: word) = offset + byteLength (c :: word) + k := by omega
    rw [List.map_cons, Lexeme.relabel, Span.relabel, hstop, hsum]

theorem exists_parseTokens {ts : List Lexeme} {f : Nat → Nat} {e : Expr} (hts : ts ≠ [])
    (h : parseTokens (ts.map (Lexeme.relabel f)) = .ok e) :
    ∃ own, parseTokens ts = .ok own ∧ relabel f own = e := by
  rw [parseTokens_relabel (.inl hts)] at h
  cases hown : parseTokens ts with
  | error err =>
    rw [hown] at h
    cases h
  | ok own =>
    rw [hown] at h
    cases h
    exact ⟨own, rfl, rfl⟩

theorem Located.exists_alone {text : List Char} {before us after : List Lexeme} {e : Expr}
    (h : Located us e) (hlexes : Lexes 0 text (before ++ us ++ after)) :
    ∃ chars alone, Occupies text chars e.span ∧ parse chars = .ok alone ∧
      relabel (· + e.span.start) alone = e := by
  obtain ⟨chars, hchars, hown⟩ := hlexes.exists_stretch h.ne_nil
  rw [← Nat.zero_add (startOf us)] at hown
  obtain ⟨own, hown, hmoved⟩ := hown.exists_moved
  have hne : own ≠ [] := by
    rintro rfl
    exact h.ne_nil hmoved
  obtain ⟨hparse, hspan, -⟩ := h
  rw [hmoved] at hparse
  obtain ⟨alone, halone, hrelabel⟩ := exists_parseTokens hne hparse
  refine ⟨chars, alone, hspan ▸ hchars, ?_, hspan ▸ hrelabel⟩
  have hlex : lex chars = .ok own := lexFrom_eq_ok_iff.mpr hown
  simp only [parse, hlex, halone]

/-- An expression stands from its first token to its last one. Each node has its parts inside of it,
in order and apart, and the characters at its place alone are read as the node, at other places. -/
theorem spans_exact {text : List Char} {e : Expr} (h : parse text = .ok e) :
    (∃ tokens, lex text = .ok tokens ∧ ∃ first ∈ tokens.head?, ∃ last ∈ tokens.getLast?,
      e.span = ⟨first.span.start, last.span.stop⟩) ∧
    ∀ node, Contains e node →
      (∀ child ∈ children node, child.span.Inside node.span) ∧
      ((children node).Pairwise fun a b => a.span.stop ≤ b.span.start) ∧
      ∃ chars alone, Occupies text chars node.span ∧ parse chars = .ok alone ∧
        relabel (· + node.span.start) alone = node := by
  unfold parse at h
  split at h
  next => cases h
  next tokens hlex =>
    have hlexes : Lexes 0 text tokens := lexFrom_eq_ok_iff.mp hlex
    have hlocated := Grammar.located_of_parseTokens h
    refine ⟨⟨tokens, hlex, ?_⟩, fun node hnode => ?_⟩
    · obtain ⟨first, hfirst, hstart⟩ := exists_first hlocated.ne_nil
      obtain ⟨last, hlast, hstop⟩ := exists_last hlocated.ne_nil
      exact ⟨first, hfirst, last, hlast, by rw [hlocated.span_eq, extent, hstart, hstop]⟩
    · obtain ⟨before, us, after, rfl, hus⟩ := hlocated.exists_tokens hnode
      have hapart : Apart us := hlexes.apart.of_append.1.of_append.2
      refine ⟨fun child hchild => ?_, ?_, hus.exists_alone hlexes⟩
      · obtain ⟨-, hspan, hparts⟩ := hus
        rw [hspan]
        exact hparts.inside hapart hchild
      · obtain ⟨-, -, hparts⟩ := hus
        exact hparts.pairwise hapart

def nested : List Char := " (env.true || f('é', !0))['a'] ".toList

theorem spans_exact_nested :
    (parse nested).toOption.map (·.span) = some ⟨1, 31⟩ ∧
    ∃ e, parse nested = .ok e ∧
      ∀ node, Contains e node → ∃ chars alone, Occupies nested chars node.span ∧
        parse chars = .ok alone ∧ relabel (· + node.span.start) alone = node := by
  have hspan : (parse nested).toOption.map (·.span) = some ⟨1, 31⟩ := by
    decide +kernel
  cases he : parse nested with
  | error err =>
    rw [he] at hspan
    cases hspan
  | ok e =>
    rw [← he]
    exact ⟨hspan, e, he, fun node hnode => ((spans_exact he).2 node hnode).2.2⟩

end WorkflowLint.Expr
