import WorkflowLint.Proofs.Expr.Lexemes
import WorkflowLint.Proofs.Expr.Relabel

/-! Layout between tokens. Tokens that are put down again with other layout between them are the
same tokens, so that they are read as the same expression, or are wrong in the same way. -/
namespace WorkflowLint.Expr
open Text

def AllLayout (text : List Char) : Prop := ∀ c ∈ text, isLayout c = true

def spread (lead : List Char) : List (List Char × List Char) → List Char
  | [] => lead
  | (word, gap) :: parts => lead ++ word ++ spread gap parts

theorem Lexes.lead {lead text : List Char} {offset : Nat} {ts : List Lexeme}
    (hlead : AllLayout lead) (h : Lexes (offset + byteLength lead) text ts) :
    Lexes offset (lead ++ text) ts := by
  induction lead generalizing offset with
  | nil => exact h
  | cons c lead ih =>
    obtain ⟨hc, hlead⟩ := List.forall_mem_cons.mp hlead
    refine .layout hc (ih hlead ?_)
    rwa [Nat.add_assoc]

theorem spread_breaks {gap : List Char} {parts : List (List Char × List Char)}
    (hgap : AllLayout gap) (h : gap = [] → parts = []) : Breaks (spread gap parts) := by
  cases gap with
  | nil =>
    rw [h rfl]
    exact .nil
  | cons c gap =>
    have hc := hgap c List.mem_cons_self
    cases parts with
    | nil => exact .cons hc gap
    | cons p parts => exact .cons hc _

theorem exists_lexes_spread {tokens : List Token} {words gaps : List (List Char)}
    (hwords : List.Forall₂ IsWord tokens words) (hlength : gaps.length = tokens.length)
    {lead : List Char} (hlead : AllLayout lead) (hgaps : ∀ gap ∈ gaps, AllLayout gap)
    (hapart : ∀ gap ∈ gaps.dropLast, gap ≠ []) (offset : Nat) :
    ∃ moved, Lexes offset (spread lead (words.zip gaps)) moved ∧ moved.map (·.token) = tokens := by
  induction hwords generalizing gaps lead offset with
  | nil =>
    refine ⟨[], ?_, rfl⟩
    have hend := Lexes.lead hlead (.nil (offset + byteLength lead))
    rwa [List.append_nil] at hend
  | @cons t word tokens words hword _ ih =>
    obtain ⟨gap, gaps, rfl⟩ := List.exists_cons_of_length_eq_add_one hlength
    obtain ⟨hgap, hgaps⟩ := List.forall_mem_cons.mp hgaps
    have hlast (h : gap = []) : words.zip gaps = [] := by
      cases gaps with
      | nil => exact List.zip_nil_right
      | cons next gaps => exact absurd h (hapart gap List.mem_cons_self)
    have hrest : ∀ gap ∈ gaps.dropLast, gap ≠ [] := by
      intro g hg
      refine hapart g ?_
      cases gaps with
      | nil => cases hg
      | cons next gaps => exact List.mem_cons_of_mem gap hg
    obtain ⟨moved, hmoved, htokens⟩ := ih (Nat.succ.inj hlength) hgap hgaps hrest
      (offset + byteLength lead + byteLength word)
    have hread := Lexes.lead hlead (hword.lexes (spread_breaks hgap hlast) hmoved)
    rw [← List.append_assoc] at hread
    exact ⟨_, hread, by rw [List.map_cons, htokens]⟩

/-! Up to places -/

def outcome : Except ParseError Expr → Except Fault Tree
  | .ok e => .ok (tree e)
  | .error e => .error e.fault

theorem outcome_relabelled (f : Nat → Nat) (r : Except ParseError Expr) :
    outcome (relabelled f (relabel f) r) = outcome r := by
  cases r with
  | error e => rfl
  | ok e => rw [relabelled, outcome, tree_relabel, outcome]

theorem outcome_parseTokens {ts us : List Lexeme} (h : ts.map (·.token) = us.map (·.token)) :
    outcome (parseTokens ts) = outcome (parseTokens us) := by
  have hzero (vs : List Lexeme) : vs.map (Lexeme.relabel fun _ => 0) =
      (vs.map (·.token)).map fun t => ⟨t, ⟨0, 0⟩⟩ := by
    rw [List.map_map]
    rfl
  have hsame (vs : List Lexeme) : outcome (parseTokens vs) =
      outcome (parseTokens (vs.map (Lexeme.relabel fun _ => 0))) := by
    rw [parseTokens_relabel (.inr rfl), outcome_relabelled]
  rw [hsame ts, hsame us, hzero, hzero, h]

/-- Tokens take up some characters each, in order, with nothing but layout around them. If they are
put down again with any layout at both ends and some between two of them, they are the same tokens
and the same expression, or the same error. The last gap is the one behind the last token. -/
theorem layout_immaterial {text : List Char} {tokens : List Lexeme} (h : lex text = .ok tokens) :
    (∀ t ∈ tokens, t.span.start < t.span.stop) ∧
    (tokens.Pairwise fun a b => a.span.stop ≤ b.span.start) ∧
    (∀ before c after, text = before ++ c :: after →
      (∀ t ∈ tokens, ¬(t.span.start ≤ byteLength before ∧ byteLength before < t.span.stop)) →
      isLayout c = true) ∧
    ∃ words, List.Forall₂ (fun t word => Occupies text word t.span) tokens words ∧
      ∀ lead gaps, AllLayout lead → (∀ gap ∈ gaps, AllLayout gap) →
        gaps.length = tokens.length → (∀ gap ∈ gaps.dropLast, gap ≠ []) →
        (∃ moved, lex (spread lead (words.zip gaps)) = .ok moved ∧
          moved.map (·.token) = tokens.map (·.token)) ∧
        outcome (parse (spread lead (words.zip gaps))) = outcome (parse text) := by
  have hlexes : Lexes 0 text tokens := lexFrom_eq_ok_iff.mp h
  obtain ⟨words, hwords⟩ := @Lexes.exists_words text [] tokens hlexes
  refine ⟨hlexes.apart.forward, hlexes.apart.order, ?_, words, ?_, ?_⟩
  · intro before c after htext hout
    exact hlexes.layout_outside htext (by simpa using hout)
  · exact hwords.imp fun t word hword => hword.2
  · intro lead gaps hlead hgaps hlength hapart
    have htokens : List.Forall₂ IsWord (tokens.map (·.token)) words :=
      List.forall₂_map_left_iff.mpr (hwords.imp fun t word hword => hword.1)
    obtain ⟨moved, hmoved, hsame⟩ := exists_lexes_spread htokens (by simpa using hlength) hlead
      hgaps hapart 0
    have hlex : lex (spread lead (words.zip gaps)) = .ok moved := lexFrom_eq_ok_iff.mpr hmoved
    refine ⟨⟨moved, hlex, hsame⟩, ?_⟩
    simp only [parse, hlex, h]
    exact outcome_parseTokens hsame

def tight : List Char := "env.a<='x'".toList

def tightTokens : List Lexeme :=
  [⟨.ident "env", ⟨0, 3⟩⟩, ⟨.dot, ⟨3, 4⟩⟩, ⟨.ident "a", ⟨4, 5⟩⟩, ⟨.le, ⟨5, 7⟩⟩,
    ⟨.string "x", ⟨7, 10⟩⟩]

theorem layout_immaterial_tight : lex tight = .ok tightTokens ∧
    ∃ words, List.Forall₂ (fun t word => Occupies tight word t.span) tightTokens words ∧
      outcome (parse (spread ['\n'] (words.zip [[' '], ['\t'], [' '], [' ', ' '], []]))) =
        outcome (parse tight) := by
  have hlex : lex tight = .ok tightTokens := by
    decide +kernel
  obtain ⟨-, -, -, words, hwords, hspread⟩ := layout_immaterial hlex
  refine ⟨hlex, words, hwords, (hspread ['\n'] _ ?_ ?_ rfl ?_).2⟩
  · simp [AllLayout, isLayout]
  · simp [AllLayout, isLayout]
  · simp

end WorkflowLint.Expr
