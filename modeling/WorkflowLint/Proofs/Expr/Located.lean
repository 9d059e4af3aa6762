import Mathlib.Data.List.Basic
import Mathlib.Logic.Relation
import WorkflowLint.Proofs.Expr.Reading

/-! Nodes and their tokens. Each node of an expression has tokens of its own, from which alone it is
read, and the tokens of its parts stand among them, one part behind the other. -/
namespace WorkflowLint.Expr

def children : Expr → List Expr
  | .literal _ _ | .context _ _ => []
  | .property _ target _ => [target]
  | .index _ target i => [target, i]
  | .call _ _ args => args
  | .apply _ callee args => callee :: args
  | .binary _ _ left right => [left, right]
  | .not _ operand => [operand]

theorem children_withSpan (s : Span) (e : Expr) : children (e.withSpan s) = children e := by
  cases e <;> rfl

def Contains : Expr → Expr → Prop := Relation.ReflTransGen fun e child => child ∈ children e

def startOf (ts : List Lexeme) : Nat :=
  match ts.head? with
  | none => 0
  | some t => t.span.start

def extent (ts : List Lexeme) : Span := ⟨startOf ts, endOf ts⟩

theorem startOf_append {ts : List Lexeme} (h : ts ≠ []) (us : List Lexeme) :
    startOf (ts ++ us) = startOf ts := by
  cases ts with
  | nil => exact absurd rfl h
  | cons t ts => rfl

theorem endOf_append (ts : List Lexeme) {us : List Lexeme} (h : us ≠ []) :
    endOf (ts ++ us) = endOf us := by
  rw [endOf, List.getLast?_append_of_ne_nil ts h, endOf]

theorem endOf_concat (ts : List Lexeme) (t : Lexeme) : endOf (ts ++ [t]) = t.span.stop := by
  rw [endOf_append ts (List.cons_ne_nil t [])]
  rfl

theorem extent_append {ts us : List Lexeme} (hts : ts ≠ []) (hus : us ≠ []) :
    extent (ts ++ us) = ⟨startOf ts, endOf us⟩ := by
  rw [extent, startOf_append hts, endOf_append ts hus]

mutual

/-- The tokens of a node and, among them, those of its parts. -/
inductive Located : List Lexeme → Expr → Prop
  | node {ts e} : parseTokens ts = .ok e → e.span = extent ts → AllLocated ts (children e) →
      Located ts e

inductive AllLocated : List Lexeme → List Expr → Prop
  | nil (ts : List Lexeme) : AllLocated ts []
  | cons {us ts e es} (gap : List Lexeme) : Located us e → AllLocated ts es →
      AllLocated (gap ++ us ++ ts) (e :: es)

end

namespace Located
variable {ts : List Lexeme} {e : Expr}

theorem span_eq (h : Located ts e) : e.span = extent ts := by
  obtain ⟨-, hspan, -⟩ := h
  exact hspan

theorem start_eq (h : Located ts e) : e.span.start = startOf ts := by rw [h.span_eq, extent]

theorem stop_eq (h : Located ts e) : e.span.stop = endOf ts := by rw [h.span_eq, extent]

end Located

theorem AllLocated.append {ts us : List Lexeme} {es fs : List Expr} :
    AllLocated ts es → AllLocated us fs → AllLocated (ts ++ us) (es ++ fs)
  | .nil ts, .nil us => .nil (ts ++ us)
  | .nil ts, .cons gap h hs => by
    rw [List.nil_append, ← List.append_assoc, ← List.append_assoc]
    exact .cons (ts ++ gap) h hs
  | .cons gap h hs, hfs => by
    rw [List.cons_append, List.append_assoc]
    exact .cons gap h (hs.append hfs)

theorem AllLocated.one {ts : List Lexeme} {e : Expr} (h : Located ts e) : AllLocated ts [e] := by
  simpa using AllLocated.cons [] h (.nil [])

namespace Grammar

/-- Tokens that are read as a tree, and as an expression that has its places there. -/
def Found (ts : List Lexeme) (t : Tree) (reads : Expr → Prop) : Prop :=
  ∃ e, tree e = t ∧ Located ts e ∧ reads e

theorem Begins.ne_nil {ts : List Lexeme} (h : Begins ts) : ts ≠ [] := by
  obtain ⟨t, us, rfl, -⟩ := h
  exact List.cons_ne_nil t us

theorem BeginsOperand.begins {ts : List Lexeme} (h : BeginsOperand ts) : Begins ts := by
  obtain ⟨t, us, hts, ht, -⟩ := h
  exact ⟨t, us, hts, ht⟩

section
variable {ts us : List Lexeme} {l r e : Expr} {es : List Expr} {t : Lexeme} {s s' s'' : Span}

theorem located_joined {op : BinaryOp} (hts : Begins ts) (hus : Begins us)
    (h : parseTokens (ts ++ t :: us) = .ok (joined op l r)) (hl : Located ts l)
    (hr : Located us r) : Located (ts ++ t :: us) (joined op l r) := by
  have hleft : AllLocated ts [l] := .one hl
  have hright : AllLocated (t :: us) [r] := (AllLocated.nil [t]).append (.one hr)
  refine .node h ?_ (hleft.append hright)
  rw [extent_append hts.ne_nil (List.cons_ne_nil t us), ← hl.start_eq,
    ← List.singleton_append, endOf_append [t] hus.ne_nil, ← hr.stop_eq]
  rfl

theorem located_not (hts : Begins ts)
    (h : parseTokens (⟨.not, s⟩ :: ts) = .ok (.not ⟨s.start, e.span.stop⟩ e))
    (he : Located ts e) : Located (⟨.not, s⟩ :: ts) (.not ⟨s.start, e.span.stop⟩ e) := by
  have hoperand : AllLocated (⟨.not, s⟩ :: ts) [e] := (AllLocated.nil [⟨.not, s⟩]).append (.one he)
  refine .node h ?_ hoperand
  rw [← List.singleton_append, extent_append (List.cons_ne_nil _ []) hts.ne_nil, ← he.stop_eq]
  rfl

theorem located_property {name : String} (hts : Begins ts)
    (h : parseTokens (ts ++ [⟨.dot, s⟩, t]) = .ok (.property ⟨e.span.start, t.span.stop⟩ e name))
    (he : Located ts e) : Located (ts ++ [⟨.dot, s⟩, t])
      (.property ⟨e.span.start, t.span.stop⟩ e name) := by
  have htarget : AllLocated (ts ++ [⟨.dot, s⟩, t]) [e] := (AllLocated.one he).append (.nil _)
  refine .node h ?_ htarget
  rw [extent_append hts.ne_nil (List.cons_ne_nil _ _), ← he.start_eq]
  rfl

theorem located_enclosed {node : Expr} {opening closing : Token} (hts : Begins ts)
    (h : parseTokens (ts ++ ⟨opening, s⟩ :: us ++ [⟨closing, s'⟩]) = .ok node)
    (hspan : node.span = ⟨e.span.start, s'.stop⟩) (hchildren : children node = e :: es)
    (he : Located ts e) (hes : AllLocated us es) :
    Located (ts ++ ⟨opening, s⟩ :: us ++ [⟨closing, s'⟩]) node := by
  have hall : AllLocated (ts ++ ⟨opening, s⟩ :: us ++ [⟨closing, s'⟩]) (e :: es) := by
    have hparts := ((AllLocated.one he).append (.nil [⟨opening, s⟩])).append
      (hes.append (.nil [⟨closing, s'⟩]))
    simpa using hparts
  refine .node h ?_ (hchildren ▸ hall)
  rw [hspan, he.start_eq, extent, endOf_concat, List.append_assoc, startOf_append hts.ne_nil]

theorem located_group (h : parseTokens (⟨.openParen, s⟩ :: ts ++ [⟨.closeParen, s'⟩]) =
      .ok (e.withSpan ⟨s.start, s'.stop⟩)) (he : Located ts e) :
    Located (⟨.openParen, s⟩ :: ts ++ [⟨.closeParen, s'⟩]) (e.withSpan ⟨s.start, s'.stop⟩) := by
  obtain ⟨-, -, hparts⟩ := he
  have hall := ((AllLocated.nil [⟨.openParen, s⟩]).append hparts).append
    (.nil [⟨.closeParen, s'⟩])
  refine .node h ?_ (by simpa [children_withSpan] using hall)
  rw [span_withSpan, extent, endOf_concat]
  rfl

theorem located_call {name : String}
    (h : parseTokens (⟨.ident name, s⟩ :: ⟨.openParen, s'⟩ :: ts ++ [⟨.closeParen, s''⟩]) =
      .ok (.call ⟨s.start, s''.stop⟩ name es)) (hes : AllLocated ts es) :
    Located (⟨.ident name, s⟩ :: ⟨.openParen, s'⟩ :: ts ++ [⟨.closeParen, s''⟩])
      (.call ⟨s.start, s''.stop⟩ name es) := by
  have hall := ((AllLocated.nil [⟨.ident name, s⟩, ⟨.openParen, s'⟩]).append hes).append
    (.nil [⟨.closeParen, s''⟩])
  refine .node h ?_ (by simpa [children] using hall)
  rw [extent, endOf_concat]
  rfl

end

/-! From derivations -/

theorem Operators.found {k level : Nat} {operand parse : Nat → Nat → List Lexeme → Parsed Expr}
    {tail : Nat → Nat → Expr → List Lexeme → Parsed Expr} {operator : Token → BinaryOp → Prop}
    (o : Operators k level operand parse tail operator) {ts us : List Lexeme} {t : Lexeme}
    {op : BinaryOp} {l r : Tree} (hop : operator t.token op) (hts : Begins ts) (hus : Begins us)
    (hl : Found ts l (Reaches (k + 1) (Stops (level + 1)) parse tail ts))
    (hr : Found us r (Gives k (Stops (level + 1)) operand us))
    (hall : ∀ e, Reaches (k + 1) (Stops (level + 1)) parse tail (ts ++ t :: us) e →
      parseTokens (ts ++ t :: us) = .ok e) :
    Found (ts ++ t :: us) (.binary op l r)
      (Reaches (k + 1) (Stops (level + 1)) parse tail (ts ++ t :: us)) := by
  obtain ⟨left, rfl, hleft, hlreads⟩ := hl
  obtain ⟨right, rfl, hright, hrreads⟩ := hr
  have hreads := o.more t hop hlreads hrreads
  exact ⟨joined op left right, rfl, located_joined hts hus (hall _ hreads) hleft hright, hreads⟩

theorem Found.imp {ts : List Lexeme} {t : Tree} {reads reads' : Expr → Prop}
    (h : Found ts t reads) (hi : ∀ e, reads e → reads' e) : Found ts t reads' := by
  obtain ⟨e, ht, he, hreads⟩ := h
  exact ⟨e, ht, he, hi e hreads⟩

theorem parseTokens_of_postfix {ts : List Lexeme} {e : Expr} (hb : Begins ts)
    (h : Reaches 1 (Uncalled ts) parseUnary postfixTail ts e) : parseTokens ts = .ok e :=
  parseTokens_of_unary hb (reads_chain h)

theorem parseTokens_of_primary {ts : List Lexeme} {e : Expr} (hb : BeginsOperand ts)
    (h : Gives 0 (Uncalled ts) parsePrimary ts e) : parseTokens ts = .ok e :=
  parseTokens_of_postfix hb.begins (reads_primary hb h)

-- A rule is read at its own level, which is enough to read it where nothing else stands.
mutual

theorem Disjunction.found {ts : List Lexeme} {t : Tree} : Disjunction ts t →
    Found ts t (Reaches 5 (Stops 1) parseOr orTail ts)
  | .single h => h.found.imp fun _ hreads =>
    orOperators.single h.begins (andOperators.gives hreads)
  | .or hl hr => orOperators.found ⟨rfl, rfl⟩ hl.begins hr.begins hl.found
    (hr.found.imp fun _ => andOperators.gives) fun _ => parseTokens_of_or

theorem Conjunction.found {ts : List Lexeme} {t : Tree} : Conjunction ts t →
    Found ts t (Reaches 4 (Stops 2) parseAnd andTail ts)
  | .single h => h.found.imp fun _ hreads =>
    andOperators.single h.begins (comparisonOperators.gives hreads)
  | .and hl hr => andOperators.found ⟨rfl, rfl⟩ hl.begins hr.begins hl.found
    (hr.found.imp fun _ => comparisonOperators.gives) fun _ =>
      parseTokens_of_and (hl.begins.append _)

theorem Comparison.found {ts : List Lexeme} {t : Tree} : Comparison ts t →
    Found ts t (Reaches 3 (Stops 3) parseComparison comparisonTail ts)
  | .single h => h.found.imp fun _ => comparisonOperators.single h.begins
  | .relation hl hop hr => comparisonOperators.found hop hl.begins hr.begins hl.found hr.found
    fun _ => parseTokens_of_comparison (hl.begins.append _)

theorem Unary.found {ts : List Lexeme} {t : Tree} : Unary ts t →
    Found ts t (Gives 2 (Stops 3) parseUnary ts)
  | @Unary.not ts t s h => by
    obtain ⟨e, rfl, he, hoperand⟩ := h.found
    have hreads := reads_not s hoperand
    have hparse := parseTokens_of_unary (Unary.not h).begins hreads
    exact ⟨_, rfl, located_not h.begins hparse he, hreads⟩
  | .chain h => h.found.imp fun _ => reads_chain

theorem Postfix.found {ts : List Lexeme} {t : Tree} : Postfix ts t →
    Found ts t (Reaches 1 (Uncalled ts) parseUnary postfixTail ts)
  | .primary h => h.found.imp fun _ => reads_primary h.begins
  | @Postfix.property ts t s u name h hname => by
    obtain ⟨e, rfl, he, htarget⟩ := h.found
    have hreads := reads_property s hname htarget
    have hparse := parseTokens_of_postfix (Postfix.property h hname).begins.begins hreads
    exact ⟨_, rfl, located_property h.begins.begins hparse he, hreads⟩
  | @Postfix.index ts us t i s s' h hi => by
    obtain ⟨e, rfl, he, htarget⟩ := h.found
    obtain ⟨key, rfl, hkey, hi'⟩ := hi.found
    have hreads := reads_index s s' htarget (orOperators.gives hi')
    have hparse := parseTokens_of_postfix (Postfix.index h hi).begins.begins hreads
    exact ⟨_, rfl, located_enclosed h.begins.begins hparse rfl rfl he (.one hkey), hreads⟩
  | @Postfix.apply ts us t args s s' h hc ha => by
    obtain ⟨e, rfl, he, htarget⟩ := h.found
    obtain ⟨es, rfl, hes, hargs⟩ := ha.found
    have hreads := reads_apply s s' htarget hc hargs
    have hparse := parseTokens_of_postfix (Postfix.apply h hc ha).begins.begins hreads
    exact ⟨_, rfl, located_enclosed h.begins.begins hparse rfl rfl he hes, hreads⟩

theorem Primary.found {ts : List Lexeme} {t : Tree} : Primary ts t →
    Found ts t (Gives 0 (Uncalled ts) parsePrimary ts)
  | .literal hv => by
    have hparse := parseTokens_of_primary (Primary.literal hv).begins (reads_literal hv)
    exact ⟨_, rfl, .node hparse rfl (.nil _), reads_literal hv⟩
  | @Primary.group ts t s s' h => by
    obtain ⟨e, rfl, he, hinner⟩ := h.found
    have hreads := reads_group s s' (orOperators.gives hinner)
    have hparse := parseTokens_of_primary (Primary.group h).begins hreads
    exact ⟨_, tree_withSpan _ e, located_group hparse he, hreads⟩
  | @Primary.context name root s hroot hsame => by
    have hreads := reads_context s ((isContext_iff name).2 ⟨root, hroot, hsame⟩)
    have hparse := parseTokens_of_primary (Primary.context hroot hsame).begins hreads
    exact ⟨_, rfl, .node hparse rfl (.nil _), hreads⟩
  | @Primary.call ts name args s s' s'' h => by
    obtain ⟨es, rfl, hes, hargs⟩ := h.found
    have hreads := reads_call name s s' s'' hargs
    have hparse := parseTokens_of_primary (Primary.call h).begins hreads
    exact ⟨_, rfl, located_call hparse hes, hreads⟩

theorem Arguments.found {ts : List Lexeme} {args : List Tree} : Arguments ts args →
    ∃ es, trees es = args ∧ AllLocated ts es ∧ ReadsArguments ts es
  | .none => ⟨[], rfl, .nil [], reads_none⟩
  | .some h => by
    obtain ⟨es, ht, hes, hreads⟩ := h.found
    exact ⟨es.reverse, ht, hes, reads_some hreads⟩

theorem Listed.found {ts : List Lexeme} {args : List Tree} : Listed ts args →
    ∃ es : List Expr, trees es.reverse = args ∧ AllLocated ts es.reverse ∧
      Reaches 6 (Stops 0) parseArguments argumentsTail ts es
  | .one h => by
    obtain ⟨e, rfl, he, hreads⟩ := h.found
    exact ⟨[e], rfl, .one he, reads_one h.begins (orOperators.gives hreads)⟩
  | @Listed.more ts us args t s hl hr => by
    obtain ⟨es, rfl, hes, hsoFar⟩ := hl.found
    obtain ⟨e, rfl, he, hnext⟩ := hr.found
    have hall : AllLocated (ts ++ ⟨.comma, s⟩ :: us) (es.reverse ++ [e]) :=
      hes.append ((AllLocated.nil [⟨.comma, s⟩]).append (.one he))
    refine ⟨e :: es, ?_, ?_, reads_comma s hsoFar (orOperators.gives hnext)⟩
    · rw [List.reverse_cons, trees_append]
      rfl
    · rwa [List.reverse_cons]

end

theorem located_of_parseTokens {ts : List Lexeme} {e : Expr} (h : parseTokens ts = .ok e) :
    Located ts e := by
  obtain ⟨found, -, hfound, hreads⟩ := (parseTokens_sound h).found
  have hsame := (parseTokens_of_or hreads).symm.trans h
  cases hsame
  exact hfound

end Grammar
end WorkflowLint.Expr
