import WorkflowLint.Proofs.Check.Markers
import WorkflowLint.Proofs.Tree.Decode
import WorkflowLint.Tree.Build

/-! Quotes around a scalar. What is said about a scalar depends on the text between its quotes and on
the text that it stands for, and these are one text unless something in it is escaped. -/
namespace WorkflowLint

/-! Markers -/

namespace Marker

def expression? : Marker → Option (List Char)
  | .complete source _ => some source
  | .unterminated _ => none

/-- Two states of a scan that differ at most in where the marker began. -/
inductive Scan.Alike : Scan → Scan → Prop
  | outside : Scan.Alike .outside .outside
  | inside (a b : Nat) (soFar : List Char) (quoted : Bool) :
      Scan.Alike (.inside a soFar quoted) (.inside b soFar quoted)

theorem expressions_alike {a b : Nat} {s t : Scan} (h : s.Alike t) (text : List Char) :
    (scan a s text).map expression? = (scan b t text).map expression? := by
  fun_induction scan a s text generalizing b t with
  | case1 =>
    cases h
    rfl
  | case2 =>
    cases h
    rfl
  | case3 offset rest ih =>
    cases h
    rw [scan.eq_3]
    exact ih (.inside _ _ _ _)
  | case4 offset c rest hopen ih =>
    cases h
    rw [scan.eq_4 b c rest hopen]
    exact ih .outside
  | case5 offset start soFar rest ih =>
    cases h
    rw [scan.eq_5, List.map_cons, List.map_cons, ih .outside]
    rfl
  | case6 offset start soFar quoted c rest hclose ih =>
    cases h with
    | inside _ b' =>
      rw [scan.eq_6 b b' soFar quoted c rest hclose]
      exact ih (.inside _ _ _ _)

theorem no_opening_append {c d : Char} {rest : List Char} (hc : c ≠ '\x7b')
    (hno : ∀ r, d = '$' → rest = '\x7b' :: '\x7b' :: r → False) (r : List Char) (hd : d = '$')
    (hr : rest ++ [c] = '\x7b' :: '\x7b' :: r) : False := by
  match rest with
  | [] => simp at hr
  | [x] =>
    simp only [List.cons_append, List.nil_append, List.cons.injEq] at hr
    exact hc hr.2.1
  | x :: y :: rest =>
    simp only [List.cons_append, List.cons.injEq] at hr
    exact hno rest hd (by rw [hr.1, hr.2.1])

theorem expressions_append {c : Char} (hopen : c ≠ '\x7b') (hclose : c ≠ '\x7d') (offset : Nat)
    (state : Scan) (text : List Char) :
    (scan offset state (text ++ [c])).map expression? =
      (scan offset state text).map expression? := by
  fun_induction scan offset state text with
  | case1 offset =>
    rw [List.nil_append, scan.eq_4 offset c [] (by simp)]
    rfl
  | case2 offset start soFar quoted =>
    rw [List.nil_append, scan.eq_6 offset start soFar quoted c [] (by simp)]
    rfl
  | case3 offset rest ih => exact ih
  | case4 offset d rest hno ih =>
    rw [List.cons_append, scan.eq_4 offset d (rest ++ [c])]
    · exact ih
    · exact no_opening_append hopen hno
  | case5 offset start soFar rest ih =>
    rw [List.cons_append, List.cons_append, scan.eq_5, List.map_cons, List.map_cons, ih]
  | case6 offset start soFar quoted d rest hno ih =>
    rw [List.cons_append, scan.eq_6 offset start soFar quoted d (rest ++ [c])]
    · exact ih
    · intro r hquoted hd hr
      match rest with
      | [] =>
        simp only [List.nil_append, List.cons.injEq] at hr
        exact hclose hr.1
      | x :: rest =>
        simp only [List.cons_append, List.cons.injEq] at hr
        exact hno rest hquoted hd (by rw [hr.1])

end Marker

theorem hasMarkers_append {c : Char} (h : c ≠ '\x7b') (text : List Char) :
    hasMarkers (text ++ [c]) = hasMarkers text := by
  fun_induction hasMarkers text with
  | case1 =>
    rw [List.nil_append, hasMarkers.eq_3 c [] (by simp)]
    rfl
  | case2 rest => rfl
  | case3 d rest hno ih =>
    rw [List.cons_append, hasMarkers.eq_3 d (rest ++ [c])]
    · exact ih
    · exact Marker.no_opening_append h hno

namespace Check
variable {d : Document} {shape : Shape} {implicit : Bool} {path : Path}

/-! Scalars between quotes -/

def quoted : Yaml.Style → List Char → List Char
  | .singleQuoted, text => '\'' :: (text ++ ['\''])
  | .doubleQuoted, text => '"' :: (text ++ ['"'])
  | _, text => text

structure OneLine (style : Yaml.Style) (text : List Char) (n : SyntaxNode) : Prop where
  content : n.content = Tree.decode style (quoted style text)
  flow : style ≠ .block
  line : '\n' ∉ text
  written : n.isNull = false

/-- Nothing in the text needs to be undone: no quote that is written twice, no backslash. -/
def Unescaped (style : Yaml.Style) (text : List Char) : Prop :=
  match style with
  | .singleQuoted => '\'' ∉ text
  | .doubleQuoted => '\\' ∉ text
  | _ => True

theorem hasMarkers_quoted (style : Yaml.Style) (text : List Char) :
    hasMarkers (quoted style text) = hasMarkers text := by
  cases style with
  | plain | block => rfl
  | singleQuoted | doubleQuoted =>
    rw [quoted, hasMarkers.eq_3 _ _ (by simp)]
    exact hasMarkers_append (by decide) text

theorem expressions_quoted (style : Yaml.Style) (text : List Char) :
    (markers (quoted style text)).map Marker.expression? =
      (markers text).map Marker.expression? := by
  have hbetween {quote : Char} (hquote : quote ≠ '$' ∧ quote ≠ '\x7b' ∧ quote ≠ '\x7d') :
      (markers (quote :: (text ++ [quote]))).map Marker.expression? =
        (markers text).map Marker.expression? := by
    rw [markers, Marker.scan.eq_4 0 quote _ (fun _ h => absurd h hquote.1),
      Marker.expressions_append hquote.2.1 hquote.2.2]
    exact Marker.expressions_alike .outside text
  cases style with
  | plain | block => rfl
  | singleQuoted | doubleQuoted => exact hbetween (by decide)

theorem outcomes_of_expressions {a b : List Char}
    (h : (markers a).map Marker.expression? = (markers b).map Marker.expression?)
    (provider : ContextProvider) :
    (markers a).map (marker provider) = (markers b).map (marker provider) := by
  have hmarker : marker provider = (fun e =>
      (e.map (expression provider)).getD (.error Expr.invalidExpression)) ∘ Marker.expression? := by
    funext m
    cases m <;> rfl
  rw [hmarker, ← List.map_map, ← List.map_map, h]

/-! What is said -/

def error? : Except String Expr.Evaluation → Option String
  | .ok _ => none
  | .error message => some message

theorem markersOf_values (provider : ContextProvider) (text : List Char) (base : Nat) :
    (markersOf provider text base).values.map (·.value) =
      ((markers text).map (marker provider)).filterMap Except.toOption := by
  rw [markersOf_eq, List.map_filterMap, List.filterMap_map]
  congr 1
  funext m
  cases hm : marker provider m <;> simp [hm, Except.toOption]

theorem markersOf_failed (provider : ContextProvider) (text : List Char) (base : Nat) :
    (markersOf provider text base).failed =
      ((markers text).map (marker provider)).any (error? · |>.isSome) := by
  rw [markersOf_eq, List.any_map]
  refine congrArg (markers text).any (funext fun m => ?_)
  cases hm : marker provider m <;> simp [hm, error?]

theorem markersOf_messages (provider : ContextProvider) (text : List Char) (base : Nat) :
    (markersOf provider text base).diagnostics.map (·.message) =
      ((markers text).map (marker provider)).filterMap error? := by
  rw [markersOf_eq, List.map_filterMap, List.filterMap_map]
  congr 1
  funext m
  cases hm : marker provider m <;> simp [hm, error?, Diagnostic.error]

theorem checkAllowed_messages (value : String) (a b : Span) (allowed : List AllowedValue) :
    (checkAllowed value a allowed).map (·.message) =
      (checkAllowed value b allowed).map (·.message) := by
  unfold checkAllowed
  split <;> rfl

theorem knownTexts?_congr {a b : List MarkerValue} (h : a.map (·.value) = b.map (·.value)) :
    knownTexts? a = knownTexts? b := by
  induction a generalizing b with
  | nil =>
    rw [List.map_nil, eq_comm, List.map_eq_nil_iff] at h
    rw [h]
  | cons v a ih =>
    obtain ⟨w, b, rfl, hw, hrest⟩ := List.map_eq_cons_iff.mp h.symm
    obtain ⟨_, v⟩ := v
    obtain ⟨_, w⟩ := w
    obtain rfl : w = v := hw
    cases w with
    | known => rw [knownTexts?, knownTexts?, ih hrest.symm]
    | indeterminate => rfl

theorem checkEvaluated_messages {a b : List MarkerValue} (h : a.map (·.value) = b.map (·.value))
    (text : List Char) (s t : Span) (allowed : List AllowedValue) :
    (checkEvaluated text s a allowed).map (·.message) =
      (checkEvaluated text t b allowed).map (·.message) := by
  have hknown := knownTexts?_congr h
  -- only a single value is ever judged by itself
  cases a with
  | nil =>
    obtain rfl : b = [] := List.map_eq_nil_iff.mp h.symm
    exact checkAllowed_messages _ _ _ _
  | cons v a =>
    obtain ⟨w, b, rfl, hw, hrest⟩ := List.map_eq_cons_iff.mp h.symm
    cases a with
    | nil =>
      obtain rfl : b = [] := List.map_eq_nil_iff.mp hrest
      simp only [checkEvaluated, hknown, hw]
      split
      · split
        · exact checkAllowed_messages _ _ _ _
        · rfl
      · split
        · rfl
        · exact checkAllowed_messages _ _ _ _
    | cons v' a =>
      obtain ⟨w', b, rfl, -, -⟩ := List.map_eq_cons_iff.mp hrest
      simp only [checkEvaluated, hknown]
      split
      · rfl
      · exact checkAllowed_messages _ _ _ _

theorem implicitExpression_messages (provider : ContextProvider) (text : List Char) (a b : Span) :
    (implicitExpression provider text a).2.map (·.message) =
      (implicitExpression provider text b).2.map (·.message) := by
  unfold implicitExpression
  split
  · rfl
  · split <;> rfl

/-- What is said about a scalar without quotes, of which the text and the value are given. -/
def messages (d : Document) (shape : Shape) (implicit : Bool) (path : Path) (text : List Char)
    (value : String) : List String :=
  (scalarText d shape implicit path .plain (String.ofList text) value ⟨0, 0⟩).map (·.message)

theorem scalarText_messages {style : ScalarStyle} {quotes : Yaml.Style} {text : List Char}
    {value : String} {span : Span} (hstyle : style ≠ .block)
    (hsource : (source style (String.ofList (quoted quotes text)) value span.start).1 = text) :
    (scalarText d shape implicit path style (String.ofList (quoted quotes text)) value span).map
      (·.message) = messages d shape implicit path text value := by
  have hplain : (source .plain (String.ofList text) value 0).1 = text := String.toList_ofList
  have hcondition {style : ScalarStyle} (hstyle : style ≠ .block) (raw : String) (start : Nat) :
      (condition style raw value start).1 = (source style raw value start).1 := by
    rw [condition, if_neg hstyle]
  simp only [messages, scalarText, scalarAgainst, String.toList_ofList, hasMarkers_quoted]
  split
  · have houtcomes := outcomes_of_expressions (expressions_quoted quotes text)
      (d.contexts d.workflow path)
    rw [markersOf_failed, markersOf_failed, houtcomes]
    split
    · rw [markersOf_messages, markersOf_messages, houtcomes]
    · rw [List.map_append, List.map_append, markersOf_messages, markersOf_messages, houtcomes]
      congr 1
      cases shape.allowedValues d.workflow path with
      | none => rfl
      | some allowed =>
        simp only [hsource, hplain]
        refine checkEvaluated_messages ?_ text span ⟨0, 0⟩ allowed
        rw [markersOf_values, markersOf_values, houtcomes]
  · split
    · rw [hcondition hstyle, hcondition (by decide), hsource, hplain]
      exact implicitExpression_messages _ _ _ _
    · cases shape.allowedValues d.workflow path with
      | none => rfl
      | some allowed => exact checkAllowed_messages value span ⟨0, 0⟩ allowed

theorem source_between {style : ScalarStyle} (hstyle : style = .singleQuoted ∨ style = .doubleQuoted)
    (quote : Char) (text : List Char) (value : String) (start : Nat) :
    (source style (String.ofList (quote :: (text ++ [quote]))) value start).1 = text := by
  have hsize : 2 ≤ (String.ofList (quote :: (text ++ [quote]))).utf8ByteSize := by
    have hpos := quote.utf8Size_pos
    simp only [String.ofList_cons, String.ofList_append, String.utf8ByteSize_append,
      String.utf8ByteSize_singleton]
    omega
  obtain rfl | rfl := hstyle <;>
    simp only [source, if_pos hsize, String.toList_ofList, List.tail_cons, List.dropLast_concat]

theorem exists_source {quotes : Yaml.Style} {text : List Char} {n : SyntaxNode}
    (hcontent : n.content = Tree.decode quotes (quoted quotes text)) (hflow : quotes ≠ .block) :
    ∃ style value, n.content = .scalar style (String.ofList (quoted quotes text)) value ∧
      style ≠ .block ∧
      ∀ start, (source style (String.ofList (quoted quotes text)) value start).1 = text := by
  cases quotes with
  | block => exact absurd rfl hflow
  | plain => exact ⟨.plain, _, hcontent, by decide, fun _ => String.toList_ofList⟩
  | singleQuoted =>
    exact ⟨.singleQuoted, _, hcontent, by decide, source_between (.inl rfl) '\'' text _⟩
  | doubleQuoted =>
    exact ⟨.doubleQuoted, _, hcontent, by decide, source_between (.inr rfl) '"' text _⟩

theorem OneLine.messages_eq {quotes : Yaml.Style} {text : List Char} {n : SyntaxNode}
    (h : OneLine quotes text n) : (scalar d shape implicit path n).map (·.message) =
      messages d shape implicit path text n.value := by
  obtain ⟨style, value, hcontent, hstyle, hsource⟩ := exists_source h.content h.flow
  have hvalue : n.value = value := by rw [SyntaxNode.value, hcontent]
  simp only [scalar, hcontent, h.written, hvalue, Bool.false_eq_true, if_false]
  exact scalarText_messages hstyle (hsource n.span.start)

theorem OneLine.value_eq {style : Yaml.Style} {text : List Char} {n : SyntaxNode}
    (h : OneLine style text n) (hescape : Unescaped style text) :
    n.value = String.ofList text := by
  rw [SyntaxNode.value, h.content]
  cases style with
  | block => exact absurd rfl h.flow
  | plain => simp only [Tree.decode, quoted, Tree.foldLines_line h.line]
  | singleQuoted =>
    simp only [Tree.decode, quoted, Tree.decodeSingle, Tree.unquote_between,
      Tree.mergeQuotes_of_not_mem hescape, Tree.foldLines_line h.line]
  | doubleQuoted =>
    simp only [Tree.decode, quoted, Tree.decodeDouble, Tree.unquote_between,
      Tree.foldLines_line h.line, Tree.unescape_of_not_mem hescape]

theorem messages_of_no_markers {a b : List Char} (ha : hasMarkers a = false)
    (hb : hasMarkers b = false) (value : String) :
    messages d shape false path a value = messages d shape false path b value := by
  simp only [messages, scalarText, scalarAgainst, String.toList_ofList, ha, hb, Bool.false_eq_true, if_false]

theorem messages_of_expressions {a b : List Char} {value value' : String}
    (hallowed : shape.allowedValues d.workflow path = none) (ha : hasMarkers a = true)
    (hb : hasMarkers b = true)
    (h : (markers a).map Marker.expression? = (markers b).map Marker.expression?) :
    messages d shape implicit path a value = messages d shape implicit path b value' := by
  have hmessages : (markersOf (d.contexts d.workflow path) a 0).diagnostics.map (·.message) =
      (markersOf (d.contexts d.workflow path) b 0).diagnostics.map (·.message) := by
    rw [markersOf_messages, markersOf_messages, outcomes_of_expressions h]
  simp only [messages, scalarText, scalarAgainst, String.toList_ofList, ha, hb, hallowed, List.append_nil,
    if_true, ite_self]
  exact hmessages

/-- The escapes in two sources of one value are of no consequence: there are none, or neither
source is read for expressions, or the expressions are all that is read and are the same. -/
inductive Harmless (d : Document) (shape : Shape) (implicit : Bool) (path : Path)
    (s t : Yaml.Style) (a b : List Char) : Prop
  | unescaped : Unescaped s a → Unescaped t b → Harmless d shape implicit path s t a b
  | value : implicit = false → hasMarkers a = false → hasMarkers b = false →
      Harmless d shape implicit path s t a b
  | expressions : shape.allowedValues d.workflow path = none → hasMarkers a = true →
      hasMarkers b = true →
      (markers a).map Marker.expression? = (markers b).map Marker.expression? →
      Harmless d shape implicit path s t a b

/-- How a scalar is quoted does not matter to what is said about it, unless there are escapes in it
that do. -/
theorem messages_of_value_eq {s t : Yaml.Style} {a b : List Char} {m n : SyntaxNode}
    (hm : OneLine s a m) (hn : OneLine t b n) (hvalue : m.value = n.value)
    (hescape : Harmless d shape implicit path s t a b) :
    (scalar d shape implicit path m).map (·.message) =
      (scalar d shape implicit path n).map (·.message) := by
  rw [hm.messages_eq, hn.messages_eq, hvalue]
  cases hescape with
  | unescaped ha hb =>
    rw [hm.value_eq ha, hn.value_eq hb, String.ofList_inj] at hvalue
    rw [hvalue]
  | value himplicit ha hb =>
    subst himplicit
    exact messages_of_no_markers ha hb n.value
  | expressions hallowed ha hb h => exact messages_of_expressions hallowed ha hb h

def loneScalar (style : Yaml.Style) (text : String) : SyntaxNode :=
  ⟨Tree.decode style (quoted style text.toList), ⟨0, (quoted style text.toList).length⟩, none⟩

def inMarker (source : String) : String := "$\x7b\x7b " ++ source ++ " \x7d\x7d"

def noContexts : Document := ⟨.empty, .null, fun _ _ _ => none⟩

def linuxOnly : Shape := .allowed [⟨"linux", none⟩]

theorem messages_of_value_eq_windows :
    OneLine .plain (inMarker "'windows'").toList (loneScalar .plain (inMarker "'windows'")) ∧
    OneLine .doubleQuoted (inMarker "'windows'").toList
      (loneScalar .doubleQuoted (inMarker "'windows'")) ∧
    (scalar noContexts linuxOnly false [] (loneScalar .plain (inMarker "'windows'"))).map
      (·.message) = ["'windows' is not in the list of allowed values"] ∧
    (scalar noContexts linuxOnly false [] (loneScalar .plain (inMarker "'windows'"))).map
        (·.message) =
      (scalar noContexts linuxOnly false [] (loneScalar .doubleQuoted (inMarker "'windows'"))).map
        (·.message) := by
  have hplain : OneLine .plain (inMarker "'windows'").toList
      (loneScalar .plain (inMarker "'windows'")) := ⟨rfl, by decide, by decide, by decide⟩
  have hdouble : OneLine .doubleQuoted (inMarker "'windows'").toList
      (loneScalar .doubleQuoted (inMarker "'windows'")) := ⟨rfl, by decide, by decide, by decide⟩
  have hunescaped : '\\' ∉ (inMarker "'windows'").toList := by decide
  refine ⟨hplain, hdouble, by decide +kernel, ?_⟩
  exact messages_of_value_eq hplain hdouble (by decide) (.unescaped trivial hunescaped)

/-- A string of an expression between single quotes, where its own quotes have to be written twice.
They are not undone before the expression is read, so that it is no expression any more. -/
theorem escaped_quotes_reported :
    OneLine .plain (inMarker "'linux'").toList (loneScalar .plain (inMarker "'linux'")) ∧
    OneLine .singleQuoted (inMarker "''linux''").toList
      (loneScalar .singleQuoted (inMarker "''linux''")) ∧
    (loneScalar .plain (inMarker "'linux'")).value =
      (loneScalar .singleQuoted (inMarker "''linux''")).value ∧
    (scalar noContexts linuxOnly false [] (loneScalar .plain (inMarker "'linux'"))).map
      (·.message) = [] ∧
    (scalar noContexts linuxOnly false [] (loneScalar .singleQuoted (inMarker "''linux''"))).map
      (·.message) = ["Invalid expression"] :=
  ⟨⟨rfl, by decide, by decide, by decide⟩, ⟨rfl, by decide, by decide, by decide⟩, by decide,
    by decide +kernel, by decide +kernel⟩

end Check
end WorkflowLint
