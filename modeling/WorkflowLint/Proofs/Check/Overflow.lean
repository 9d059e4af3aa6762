import WorkflowLint.Proofs.Check.Bounds

/-! Overflows. The message of one is no other message, so the diagnostics tell whether an expression
of the document ended in one. -/
namespace WorkflowLint

theorem Expr.ne_overflowMessage_of_first {c : Char} {message : String}
    (h : message.toList.head? = some c) (hc : c ≠ 'a') : message ≠ overflowMessage := by
  rintro rfl
  exact hc (Option.some.inj (h.symm.trans (by decide)))

theorem Expr.Failure.message_eq_overflowMessage {f : Failure} :
    f.message = overflowMessage ↔ f = .overflow := by
  cases f with
  | invalid => decide
  | unknownAccess path =>
    have hfirst : (unknownAccess path).message.toList.head? = some 'U' := by
      unfold message
      simp
    exact iff_of_false (ne_overflowMessage_of_first hfirst (by decide)) nofun
  | overflow => exact iff_of_true rfl rfl

namespace Check
variable {provider : ContextProvider}

def Overflows (provider : ContextProvider) (source : List Char) : Prop :=
  ∃ e span, Expr.parse source = .ok e ∧
    Expr.eval ⟨(Expr.Snapshot.capture provider e).resolver, .builtins⟩ e =
      .error ⟨.overflow, span⟩

theorem expression_eq_overflow {source : List Char} :
    expression provider source = .error Expr.overflowMessage ↔ Overflows provider source := by
  unfold expression Overflows
  cases Expr.parse source with
  | error => simp [Expr.invalidExpression, Expr.overflowMessage]
  | ok e =>
    dsimp only
    cases heval : Expr.eval ⟨(Expr.Snapshot.capture provider e).resolver, .builtins⟩ e with
    | error err =>
      obtain ⟨failure, span⟩ := err
      simp [Expr.EvalError.message, Expr.Failure.message_eq_overflowMessage, heval]
    | ok v => simp [heval]

@[simp] theorem overflowed_nil : overflowed [] = false := rfl

@[simp] theorem overflowed_append (ds es : List Diagnostic) :
    overflowed (ds ++ es) = (overflowed ds || overflowed es) := List.any_append

@[simp] theorem overflowed_error (message : String) (span : Span) :
    overflowed [.error message span] = (message == Expr.overflowMessage) := by
  simp [overflowed, Diagnostic.error]

@[simp] theorem overflowed_checkAllowed (value : String) (span : Span) (allowed : List AllowedValue) :
    overflowed (checkAllowed value span allowed) = false := by
  unfold checkAllowed
  split
  · rfl
  · rw [overflowed_error, beq_eq_false_iff_ne]
    exact Expr.ne_overflowMessage_of_first (c := '\'') (by simp) (by decide)

@[simp] theorem overflowed_checkEvaluated (text : List Char) (span : Span) (values : List MarkerValue)
    (allowed : List AllowedValue) : overflowed (checkEvaluated text span values allowed) = false := by
  rw [overflowed, List.any_eq_false]
  intro x hx
  obtain ⟨value, place, hx, -⟩ := mem_checkEvaluated hx
  exact List.any_eq_false.mp (overflowed_checkAllowed value place allowed) x hx

theorem overflowed_markersOf {text : List Char} {base : Nat} :
    overflowed (markersOf provider text base).diagnostics = true ↔
      ∃ source span, .complete source span ∈ markers text ∧ Overflows provider source := by
  rw [markersOf_diagnostics, overflowed, List.any_filterMap, List.any_eq_true]
  constructor
  · rintro ⟨m, hm, h⟩
    cases m with
    | unterminated => simp [marker, Diagnostic.error, Expr.invalidExpression,
        Expr.overflowMessage] at h
    | complete source span =>
      refine ⟨source, span, hm, expression_eq_overflow.mp ?_⟩
      cases he : expression provider source with
      | ok => simp [marker, he] at h
      | error message => simpa [marker, he, Diagnostic.error] using h
  · rintro ⟨source, span, hm, h⟩
    refine ⟨_, hm, ?_⟩
    simp [marker, expression_eq_overflow.mpr h, Diagnostic.error]

theorem overflowed_implicitExpression {text : List Char} {span : Span} :
    overflowed (implicitExpression provider text span).2 = true ↔
      Text.isBlankText text = false ∧ Overflows provider text := by
  unfold implicitExpression
  cases Text.isBlankText text with
  | true => simp
  | false =>
    rw [← expression_eq_overflow]
    cases expression provider text <;> simp

/-- Nothing that a scalar is compared with overflows, only what is written in it. -/
theorem overflowed_scalarAgainst {allowed : Option (List AllowedValue)} {implicit : Bool}
    {style : ScalarStyle} {raw value : String} {span : Span} :
    overflowed (scalarAgainst provider allowed implicit style raw value span) = true ↔
      if hasMarkers raw.toList then
        ∃ source s, .complete source s ∈ markers raw.toList ∧ Overflows provider source
      else implicit = true ∧
        Text.isBlankText (condition style raw value span.start).1 = false ∧
          Overflows provider (condition style raw value span.start).1 := by
  unfold scalarAgainst
  split
  · rw [← @overflowed_markersOf provider raw.toList span.start]
    dsimp only
    split
    · rfl
    · cases allowed <;> simp
  · cases implicit with
    | true => simpa using overflowed_implicitExpression
    | false => cases allowed <;> simp

variable {d : Document} {schema : Shape}

/-- If a walk ended in an overflow, then over an expression of a scalar that it reached. -/
theorem overflows_of_document (h : overflowed (document d schema).diagnostics = true) :
    ∃ c source, Reached d schema c ∧ Overflows (d.contexts d.workflow c.path) source := by
  obtain ⟨x, hx, hmessage⟩ := List.any_eq_true.mp h
  obtain ⟨c, site, hc, hf⟩ := exists_finding hx
  obtain hflaw | ⟨-, n, implicit, hn, hscalar, hx⟩ := Call.findings_cases hf
  · -- no flaw of the structure has this message
    have hover : isStructural Expr.overflowMessage = false := by decide
    simp [← beq_iff_eq.mp hmessage, hflaw.isStructural] at hover
  · refine ⟨c, ?_⟩
    cases hcontent : n.content with
    | scalar style raw value =>
      simp only [scalar, hcontent] at hx
      split at hx
      · cases hx
      · have hover := overflowed_scalarAgainst.mp (List.any_eq_true.mpr ⟨x, hx, hmessage⟩)
        split at hover
        · obtain ⟨source, -, -, hover⟩ := hover
          exact ⟨source, hc, hover⟩
        · exact ⟨_, hc, hover.2.2⟩
    | _ => simp [SyntaxNode.isScalar, hcontent] at hscalar

end Check
end WorkflowLint
