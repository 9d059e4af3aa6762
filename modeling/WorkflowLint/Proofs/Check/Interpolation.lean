import WorkflowLint.Proofs.Check.Verdicts
import Mathlib.Data.List.Forall2

/-! Allowed values and markers. A scalar is read for markers with its quotes and filled in without
them; the markers are the same ones, so that each of them is replaced by its own value. -/
namespace WorkflowLint
open Text

namespace Text

theorem ne_of_isBlank {c d : Char} (hc : isBlank c = true) (hd : isBlank d = false) : c ≠ d := by
  rintro rfl
  rw [hd] at hc
  cases hc

theorem byteLength_eq_zero {text : List Char} (h : byteLength text = 0) : text = [] := by
  cases text with
  | nil => rfl
  | cons c text =>
    have hpos := c.utf8Size_pos
    rw [byteLength] at h
    omega

theorem exists_trim (text : List Char) : ∃ before after, text = before ++ trim text ++ after ∧
    (∀ c ∈ before, isBlank c = true) ∧ ∀ c ∈ after, isBlank c = true := by
  refine ⟨text.takeWhile isBlank, ((trimStart text).reverse.takeWhile isBlank).reverse, ?_, ?_, ?_⟩
  · have hend : trim text ++ ((trimStart text).reverse.takeWhile isBlank).reverse =
        trimStart text := by
      rw [trim, trimEnd, ← List.reverse_append, List.takeWhile_append_dropWhile,
        List.reverse_reverse]
    rw [List.append_assoc, hend, trimStart, List.takeWhile_append_dropWhile]
  · exact fun c hc => List.all_eq_true.mp List.all_takeWhile c hc
  · intro c hc
    exact List.all_eq_true.mp List.all_takeWhile c (List.mem_reverse.mp hc)

theorem mem_trim {text : List Char} {c : Char} (h : c ∈ text) (hc : isBlank c = false) :
    c ∈ trim text := by
  obtain ⟨before, after, htext, hbefore, hafter⟩ := exists_trim text
  rw [htext, List.mem_append, List.mem_append] at h
  have hnot {side : List Char} (hside : ∀ c ∈ side, isBlank c = true) : c ∉ side :=
    fun hmem => ne_of_isBlank (hside c hmem) hc rfl
  simpa only [hnot hbefore, hnot hafter, or_false, false_or] using h

theorem mem_dropReturn {line : List Char} {c : Char} (h : c ∈ line) (hc : c ≠ '\r') :
    c ∈ dropReturn line := by
  fun_induction dropReturn line with
  | case1 => exact h
  | case2 => exact absurd (List.mem_singleton.mp h) hc
  | case3 d rest _ ih =>
    obtain rfl | h := List.mem_cons.mp h
    · exact List.mem_cons_self
    · exact List.mem_cons_of_mem d (ih h)

theorem exists_linesFrom {line text : List Char} {c : Char} (h : c ∈ line ∨ c ∈ text)
    (hfeed : c ≠ '\n') (hreturn : c ≠ '\r') : ∃ l ∈ linesFrom line text, c ∈ l := by
  fun_induction linesFrom line text with
  | case1 line hline =>
    rw [List.isEmpty_iff.mp hline] at h
    simp at h
  | case2 line hline => simpa using h
  | case3 line rest ih =>
    by_cases hc : c ∈ line
    · exact ⟨_, List.mem_cons_self, mem_dropReturn (List.mem_reverse.mpr hc) hreturn⟩
    · obtain ⟨l, hl, hcl⟩ := ih (.inr (by simpa [hc, hfeed] using h))
      exact ⟨l, List.mem_cons_of_mem _ hl, hcl⟩
  | case4 line d rest _ ih =>
    refine ih ?_
    simpa only [List.mem_cons, or_assoc, or_left_comm] using h

end Text

namespace Tree

theorem mem_joinWith {separator c : Char} {lines : List (List Char)} {line : List Char}
    (hline : line ∈ lines) (h : c ∈ line) : c ∈ joinWith separator lines := by
  fun_induction joinWith separator lines with
  | case1 => cases hline
  | case2 only =>
    rw [← List.mem_singleton.mp hline]
    exact h
  | case3 first rest _ ih =>
    obtain rfl | hline := List.mem_cons.mp hline
    · exact List.mem_append_left _ h
    · exact List.mem_append_right _ (List.mem_cons_of_mem _ (ih hline))

theorem mem_foldLines {text : List Char} {c : Char} (h : c ∈ text) (hc : isBlank c = false) :
    c ∈ foldLines text := by
  have hfeed : c ≠ '\n' := (ne_of_isBlank (by decide) hc).symm
  have hreturn : c ≠ '\r' := (ne_of_isBlank (by decide) hc).symm
  unfold foldLines
  split
  · obtain ⟨line, hline, hcl⟩ := @exists_linesFrom [] text c (.inr h) hfeed hreturn
    exact mem_trim (mem_joinWith (List.mem_map_of_mem hline) (mem_trim hcl hc)) hc
  · exact h

end Tree

namespace Marker

/-! White space around a text -/

theorem expressions_before {before : List Char} (h : ∀ c ∈ before, c ≠ '$') (text : List Char) :
    (markers (before ++ text)).map expression? = (markers text).map expression? := by
  induction before with
  | nil => rfl
  | cons c before ih =>
    have hc := h c List.mem_cons_self
    rw [← ih fun d hd => h d (List.mem_cons_of_mem c hd), markers, List.cons_append,
      scan.eq_4 0 c _ (fun _ hd => absurd hd hc)]
    exact expressions_alike .outside _

theorem expressions_behind {after : List Char} (h : ∀ c ∈ after, c ≠ '\x7b' ∧ c ≠ '\x7d')
    (text : List Char) : (markers (text ++ after)).map expression? =
      (markers text).map expression? := by
  induction after generalizing text with
  | nil => rw [List.append_nil]
  | cons c after ih =>
    obtain ⟨hopen, hclose⟩ := h c List.mem_cons_self
    rw [← List.singleton_append, ← List.append_assoc,
      ih (fun d hd => h d (List.mem_cons_of_mem c hd)), markers, markers,
      expressions_append hopen hclose]

theorem expressions_trim (text : List Char) :
    (markers (trim text)).map expression? = (markers text).map expression? := by
  obtain ⟨before, after, htext, hbefore, hafter⟩ := exists_trim text
  have hfront (c : Char) (hc : c ∈ before) : c ≠ '$' := ne_of_isBlank (hbefore c hc) (by decide)
  have hback (c : Char) (hc : c ∈ after) : c ≠ '\x7b' ∧ c ≠ '\x7d' :=
    ⟨ne_of_isBlank (hafter c hc) (by decide), ne_of_isBlank (hafter c hc) (by decide)⟩
  have h := expressions_before hfront (trim text ++ after)
  rw [← List.append_assoc, ← htext] at h
  rw [h, expressions_behind hback]

/-! Texts of which all markers have an end -/

theorem Marked.exists_embed {done rest : List Char} {items : List Marker}
    (h : Marked done rest items) (hcomplete : ∀ m ∈ items, m.expression? ≠ none) :
    ∃ first parts, rest = embed first parts ∧ items = placed (done ++ first) parts ∧
      ¬opening <:+: first ∧ ∀ p ∈ parts, ¬opening <:+: p.2 := by
  induction h with
  | @nothing done rest hno =>
    exact ⟨rest, [], rfl, rfl, fun hopen => not_exists.mpr hno (exists_opens_iff.mpr hopen),
      by simp⟩
  | @complete done gap source after items hopen _ _ ih =>
    obtain ⟨first, parts, rfl, rfl, hfirst, hgaps⟩ :=
      ih fun m hm => hcomplete m (List.mem_cons_of_mem _ hm)
    refine ⟨gap, (source, first) :: parts, ?_, rfl, hopen.no_opening, ?_⟩
    · simp only [embed, List.append_assoc]
    · rintro p hp
      obtain rfl | hp := List.mem_cons.mp hp
      · exact hfirst
      · exact hgaps p hp
  | unterminated => exact absurd rfl (hcomplete _ List.mem_cons_self)

theorem scan_embed_append {first tail : List Char} {parts : List (List Char × List Char)}
    (htail : ∀ gap, ¬opening <:+: gap → ¬opening <:+: gap ++ tail)
    (hfirst : ¬opening <:+: first) (hgaps : ∀ p ∈ parts, ¬opening <:+: p.2)
    (hsources : ∀ p ∈ parts, Passes false p.1) (before : List Char) :
    scan (byteLength before) .outside (embed first parts ++ tail) =
      placed (before ++ first) parts := by
  induction parts generalizing first before with
  | nil =>
    have hscan := @scan_gap (first ++ tail) [] (htail first hfirst) (by simp) (byteLength before)
    rw [List.append_nil] at hscan
    exact hscan
  | cons p parts ih =>
    obtain ⟨source, gap⟩ := p
    have hsource := hsources (source, gap) List.mem_cons_self
    have hgap := hgaps (source, gap) List.mem_cons_self
    rw [embed, List.append_assoc, scan_around hfirst hsource, placed,
      ih hgap (fun q hq => hgaps q (List.mem_cons_of_mem _ hq))
        (fun q hq => hsources q (List.mem_cons_of_mem _ hq))]

theorem expressions_placed (before : List Char) (parts : List (List Char × List Char)) :
    (placed before parts).map expression? = parts.map fun p => some p.1 := by
  induction parts generalizing before with
  | nil => rfl
  | cons p parts ih =>
    rw [placed, List.map_cons, List.map_cons, ih]
    rfl

end Marker

namespace Check
variable {d : Document} {shape : Shape} {implicit : Bool} {path : Path}

/-! One marker and nothing else -/

def IsMarker (text source : List Char) : Prop :=
  text = Marker.opening ++ source ++ Marker.closing ∧ markers text = [Marker.around [] source]

theorem isMarker_of_span {text source : List Char} {span : Span}
    (h : markers text = [.complete source span]) (hstart : span.start = 0)
    (hstop : span.stop = byteLength text) : IsMarker text source := by
  obtain ⟨first, parts, htext, hitems, -, -⟩ := (Marker.marked_markers text).exists_embed
    (by simp [h, Marker.expression?])
  rw [h] at hitems
  cases parts with
  | nil => cases hitems
  | cons p parts =>
    obtain ⟨p, gap⟩ := p
    obtain ⟨hone, hrest⟩ := List.cons.inj hitems
    cases hone
    obtain rfl : parts = [] := by
      have hlength := congrArg List.length hrest
      rw [Marker.length_placed] at hlength
      exact List.length_eq_zero_iff.mp hlength.symm
    obtain rfl : first = [] := byteLength_eq_zero hstart
    have hgap : byteLength gap = 0 := by
      rw [htext, Marker.embed, Marker.embed, byteLength_append _ gap] at hstop
      simp only [List.nil_append] at hstop
      omega
    rw [byteLength_eq_zero hgap] at htext
    refine ⟨?_, ?_⟩
    · simpa [Marker.embed] using htext
    · rw [h]
      rfl

theorem isSingleMarker_iff (text : List Char) :
    isSingleMarker text = true ↔ ∃ source, IsMarker (trim text) source := by
  constructor
  · intro h
    simp only [isSingleMarker] at h
    split at h
    next source span hm =>
      rw [Bool.and_eq_true, decide_eq_true_eq, decide_eq_true_eq] at h
      exact ⟨source, isMarker_of_span hm h.1 h.2⟩
    next => cases h
  · rintro ⟨source, htext, hm⟩
    have hstop : byteLength ([] ++ Marker.opening ++ source ++ Marker.closing) =
        byteLength (trim text) := by rw [htext, List.nil_append]
    simp only [isSingleMarker, hm, Marker.around, hstop, byteLength, decide_true, Bool.and_self]

/-! The text with values put in -/

def filled (first : List Char) : List ((List Char × List Char) × String) → List Char
  | [] => first
  | ((_, gap), value) :: rest => first ++ value.toList ++ filled gap rest

theorem interpolateFrom_cons (done gap word after : List Char) (value : String)
    (rest : List (Span × String)) :
    interpolateFrom (done ++ gap ++ word ++ after) done.length
      ((⟨byteLength (done ++ gap), byteLength (done ++ gap ++ word)⟩, value) :: rest) =
        gap ++ value.toList ++
          interpolateFrom (done ++ gap ++ word ++ after) (done ++ gap ++ word).length rest := by
  have hstart : charOffset (done ++ gap ++ word ++ after) (byteLength (done ++ gap)) =
      (done ++ gap).length := by
    rw [List.append_assoc _ word, charOffset_byteLength]
  have hgap : ((done ++ gap ++ word ++ after).take (done ++ gap).length).drop done.length =
      gap := by
    rw [List.append_assoc _ word, List.take_left, List.drop_left]
  rw [interpolateFrom, hstart, hgap, charOffset_byteLength]

theorem completeSpans_of_placed {text before : List Char} {parts : List (List Char × List Char)}
    (h : markers text = Marker.placed before parts) :
    completeSpans text = (Marker.placed before parts).map Marker.span := by
  rw [completeSpans, h]
  clear h
  induction parts generalizing before with
  | nil => rfl
  | cons p parts ih =>
    rw [Marker.placed, List.map_cons, ← ih]
    rfl

theorem interpolateFrom_embed {first : List Char} {parts : List (List Char × List Char)}
    {values : List String} (h : parts.length = values.length) (done : List Char) :
    interpolateFrom (done ++ Marker.embed first parts) done.length
      (((Marker.placed (done ++ first) parts).map Marker.span).zip values) =
        filled first (parts.zip values) := by
  induction parts generalizing first values done with
  | nil => simp [interpolateFrom, Marker.placed, Marker.embed, filled]
  | cons p parts ih =>
    obtain ⟨source, gap⟩ := p
    obtain ⟨value, values, rfl⟩ := List.exists_cons_of_length_eq_add_one h.symm
    let word := Marker.opening ++ source ++ Marker.closing
    have htext : done ++ Marker.embed first ((source, gap) :: parts) =
        done ++ first ++ word ++ Marker.embed gap parts := by
      simp only [Marker.embed, word, List.append_assoc]
    have hplaced : Marker.placed (done ++ first) ((source, gap) :: parts) =
        .complete source ⟨byteLength (done ++ first), byteLength (done ++ first ++ word)⟩ ::
          Marker.placed (done ++ first ++ word ++ gap) parts := by
      simp only [Marker.placed, Marker.around, word, List.append_assoc]
    rw [htext, hplaced, List.map_cons, List.zip_cons_cons, Marker.span, interpolateFrom_cons,
      ih (Nat.succ.inj h), List.zip_cons_cons, filled]

/-! Scalars -/

def quoteOf : Yaml.Style → List Char
  | .singleQuoted => ['\'']
  | .doubleQuoted => ['"']
  | .plain | .block => []

theorem quoted_eq (style : Yaml.Style) (text : List Char) :
    quoted style text = quoteOf style ++ text ++ quoteOf style := by
  cases style <;> simp [quoted, quoteOf]

/-- The markers in a scalar with its quotes are those without them, moved by the quote. -/
theorem markers_quoted {style : Yaml.Style} {first : List Char}
    {parts : List (List Char × List Char)} (hfirst : ¬Marker.opening <:+: first)
    (hgaps : ∀ p ∈ parts, ¬Marker.opening <:+: p.2)
    (hsources : ∀ p ∈ parts, Marker.Passes false p.1) :
    markers (quoted style (Marker.embed first parts)) =
      Marker.placed (quoteOf style ++ first) parts := by
  have htail (gap : List Char) (h : ¬Marker.opening <:+: gap) :
      ¬Marker.opening <:+: gap ++ quoteOf style := by
    rw [← Marker.hasMarkers_iff] at h ⊢
    cases style with
    | plain | block => rwa [quoteOf, List.append_nil]
    | singleQuoted | doubleQuoted => rwa [quoteOf, hasMarkers_append (by decide)]
  have hlead : ¬Marker.opening <:+: quoteOf style ++ first := by
    cases style <;> simpa [quoteOf, List.infix_cons_iff, Marker.opening] using hfirst
  rw [quoted_eq, ← Marker.embed_append]
  exact Marker.scan_embed_append htail hlead hgaps hsources []

/-! What is known of the markers -/

theorem knownTexts?_of_known {values : List MarkerValue} {known : List Json}
    (h : values.map (·.value) = known.map .known) :
    knownTexts? values = some (known.map Json.display) := by
  induction values generalizing known with
  | nil =>
    obtain rfl : known = [] := List.map_eq_nil_iff.mp h.symm
    rfl
  | cons v values ih =>
    obtain ⟨w, known, rfl, hw, hrest⟩ := List.map_eq_cons_iff.mp h.symm
    obtain ⟨span, value⟩ := v
    obtain rfl : .known w = value := hw
    rw [knownTexts?, ih hrest.symm]
    rfl

theorem knownTexts?_of_indeterminate {values : List MarkerValue}
    (h : Expr.Evaluation.indeterminate ∈ values.map (·.value)) : knownTexts? values = none := by
  induction values with
  | nil => cases h
  | cons v values ih =>
    obtain ⟨span, value⟩ := v
    cases value with
    | indeterminate => rfl
    | known w =>
      rw [knownTexts?, ih (by simpa using h)]
      rfl

theorem checkEvaluated_whole {text : List Char} (h : isSingleMarker text = false) (span : Span)
    (values : List MarkerValue) (allowed : List AllowedValue) :
    checkEvaluated text span values allowed =
      match knownTexts? values with
      | none => []
      | some texts => checkAllowed (String.ofList (interpolate text texts)) span allowed := by
  match values with
  | [] | _ :: _ :: _ => rfl
  | [v] => exact if_neg (Bool.eq_false_iff.mp h)

theorem isNull_of_hasMarkers {style : Yaml.Style} {text : List Char} {n : SyntaxNode}
    (hn : n.content = Tree.decode style (quoted style text)) (h : hasMarkers text = true) :
    n.isNull = false := by
  cases style with
  | singleQuoted | doubleQuoted | block => simp [SyntaxNode.isNull, hn, Tree.decode]
  | plain =>
    have hdollar : '$' ∈ Tree.foldLines text := by
      refine Tree.mem_foldLines ?_ (by decide)
      exact (Marker.hasMarkers_iff.mp h).subset (by simp [Marker.opening])
    have hvalue : n.isNull =
        ["", "~", "null", "Null", "NULL"].contains (String.ofList (Tree.foldLines text)) := by
      simp only [SyntaxNode.isNull, hn, Tree.decode, quoted]
    rw [hvalue, Bool.eq_false_iff, Ne, List.contains_iff_mem]
    intro hmem
    have hnone : ∀ word ∈ ["", "~", "null", "Null", "NULL"], '$' ∉ word.toList := by decide
    refine hnone _ hmem ?_
    rwa [String.toList_ofList]

/-! The scalar as a whole -/

/-- The markers of a text with the gaps around them, and what each of them comes to. In the text
with its quotes they are moved by a quote, and are otherwise the same. -/
structure Valued (provider : ContextProvider) (quotes : Yaml.Style) (text first : List Char)
    (parts : List (List Char × List Char)) (values : List Expr.Evaluation) : Prop where
  text_eq : text = Marker.embed first parts
  source : markers text = Marker.placed first parts
  raw : markers (quoted quotes text) = Marker.placed (quoteOf quotes ++ first) parts
  value : List.Forall₂ (fun p v => expression provider p.1 = .ok v) parts values

theorem passes_of_expression {provider : ContextProvider} {source : List Char}
    {v : Expr.Evaluation} (h : expression provider source = .ok v) :
    Marker.Passes false source := by
  unfold expression at h
  split at h
  next => cases h
  next e he =>
    unfold Expr.parse at he
    split at he
    next => cases he
    next tokens hlex => exact .lexFrom hlex

theorem exists_values {provider : ContextProvider} {before : List Char}
    {parts : List (List Char × List Char)}
    (h : ∀ m ∈ Marker.placed before parts, ∃ v, marker provider m = .ok v) :
    ∃ values, List.Forall₂ (fun p v => expression provider p.1 = .ok v) parts values := by
  induction parts generalizing before with
  | nil => exact ⟨[], .nil⟩
  | cons p parts ih =>
    obtain ⟨values, hvalues⟩ := ih fun m hm => h m (List.mem_cons_of_mem _ hm)
    obtain ⟨v, hv⟩ := h _ List.mem_cons_self
    exact ⟨v :: values, .cons hv hvalues⟩

theorem exists_valued {provider : ContextProvider} {quotes : Yaml.Style} {text : List Char}
    (h : ∀ m ∈ markers (quoted quotes text), ∃ v, marker provider m = .ok v) :
    ∃ first parts values, Valued provider quotes text first parts values := by
  have hmarkers : ∀ m ∈ markers text, ∃ v, marker provider m = .ok v := by
    have houtcomes := outcomes_of_expressions (expressions_quoted quotes text) provider
    intro m hm
    have hmem : marker provider m ∈ (markers (quoted quotes text)).map (marker provider) :=
      houtcomes ▸ List.mem_map_of_mem hm
    obtain ⟨m', hm', heq⟩ := List.mem_map.mp hmem
    rw [← heq]
    exact h m' hm'
  obtain ⟨first, parts, rfl, hsource, hfirst, hgaps⟩ :=
    (Marker.marked_markers text).exists_embed (by
      intro m hm hnone
      obtain ⟨v, hv⟩ := hmarkers m hm
      rw [marker_eq_verdict, hnone] at hv
      cases hv)
  rw [hsource] at hmarkers
  obtain ⟨values, hvalues⟩ := exists_values hmarkers
  refine ⟨first, parts, values, rfl, hsource, markers_quoted hfirst hgaps fun p hp => ?_, hvalues⟩
  obtain ⟨i, hi, rfl⟩ := List.mem_iff_getElem.mp hp
  exact passes_of_expression (hvalues.get hi (hvalues.length_eq ▸ hi))

namespace Valued
variable {provider : ContextProvider} {quotes : Yaml.Style} {text first : List Char}
  {parts : List (List Char × List Char)} {values : List Expr.Evaluation}

theorem outcomes (h : Valued provider quotes text first parts values) :
    (markers (quoted quotes text)).map (marker provider) = values.map .ok := by
  have hplaced {parts : List (List Char × List Char)} {values : List Expr.Evaluation}
      (hvalues : List.Forall₂ (fun p v => expression provider p.1 = .ok v) parts values)
      (before : List Char) :
      (Marker.placed before parts).map (marker provider) = values.map .ok := by
    induction hvalues generalizing before with
    | nil => rfl
    | cons hv _ ih =>
      rw [Marker.placed, List.map_cons, List.map_cons, ih, Marker.around, marker, hv]
  rw [h.raw, hplaced h.value]

theorem markersOf_eq (h : Valued provider quotes text first parts values) (base : Nat) :
    (markersOf provider (quoted quotes text) base).values.map (·.value) = values ∧
    (markersOf provider (quoted quotes text) base).failed = false ∧
    (markersOf provider (quoted quotes text) base).diagnostics = [] := by
  have hmessages :
      (markersOf provider (quoted quotes text) base).diagnostics.map (·.message) = [] := by
    rw [markersOf_messages, h.outcomes, List.filterMap_map]
    simp [error?]
  refine ⟨?_, ?_, List.map_eq_nil_iff.mp hmessages⟩
  · rw [markersOf_values, h.outcomes, List.filterMap_map]
    exact List.filterMap_some
  · rw [markersOf_failed, h.outcomes, List.any_map]
    simp [error?]

theorem markersOf_single {source gap : List Char} {v : Expr.Evaluation}
    (h : Valued provider quotes text first [(source, gap)] [v]) (base : Nat) :
    (markersOf provider (quoted quotes text) base).values =
      [⟨⟨base + (quoteOf quotes ++ first).length, base + (quoteOf quotes ++ first ++
        Marker.opening ++ source ++ Marker.closing).length⟩, v⟩] := by
  let before := quoteOf quotes ++ first
  let word := Marker.opening ++ source ++ Marker.closing
  have htext : quoted quotes text = before ++ word ++ (gap ++ quoteOf quotes) := by
    rw [quoted_eq, h.text_eq]
    simp only [Marker.embed, before, word, List.append_assoc]
  have hstart : charOffset (quoted quotes text) (byteLength before) = before.length := by
    rw [htext, List.append_assoc, charOffset_byteLength]
  have hstop : charOffset (quoted quotes text) (byteLength (before ++ word)) =
      (before ++ word).length := by
    rw [htext, charOffset_byteLength]
  have hmarker : marker provider (Marker.around before source) = .ok v :=
    (List.forall₂_cons.mp h.value).1
  have hplace : absolute (quoted quotes text) base (Marker.around before source).span =
      ⟨base + before.length, base + (before ++ word).length⟩ := by
    simp only [absolute, Marker.around, Marker.span, hstart, List.append_assoc]
    rw [← hstop]
    simp only [word, List.append_assoc]
  rw [Check.markersOf_eq, h.raw, Marker.placed, Marker.placed]
  simp only [List.filterMap_cons, hmarker, hplace, List.filterMap_nil, before, word,
    List.append_assoc]

theorem scalar_eq {n : SyntaxNode} {allowed : List AllowedValue}
    (h : Valued (d.contexts d.workflow path) quotes text first parts values)
    (hn : n.content = Tree.decode quotes (quoted quotes text)) (hflow : quotes ≠ .block)
    (hmarked : hasMarkers text = true)
    (hallowed : shape.allowedValues d.workflow path = some allowed) :
    scalar d shape implicit path n = checkEvaluated text n.span
      (markersOf (d.contexts d.workflow path) (quoted quotes text) n.span.start).values
      allowed := by
  obtain ⟨style, value, hcontent, -, hsource⟩ := exists_source hn hflow
  obtain ⟨-, hfailed, hdiagnostics⟩ := h.markersOf_eq n.span.start
  simp only [scalar, hcontent, isNull_of_hasMarkers hn hmarked, scalarText, scalarAgainst, String.toList_ofList,
    hasMarkers_quoted, hmarked, hfailed, hdiagnostics, hallowed, hsource, if_true, if_false,
    Bool.false_eq_true, List.nil_append]

theorem exists_single {source : List Char} (h : Valued provider quotes text first parts values)
    (hm : IsMarker (trim text) source) : ∃ gap v, parts = [(source, gap)] ∧ values = [v] := by
  have hparts := Marker.expressions_trim text
  rw [hm.2, h.source, Marker.expressions_placed] at hparts
  obtain ⟨⟨found, gap⟩, parts, rfl, hfound, hrest⟩ := List.map_eq_cons_iff.mp hparts.symm
  obtain rfl : parts = [] := List.map_eq_nil_iff.mp hrest
  obtain rfl : found = source := Option.some.inj hfound
  obtain ⟨v, values, -, hvalues, rfl⟩ := List.forall₂_cons_left_iff.mp h.value
  obtain rfl := List.forall₂_nil_left_iff.mp hvalues
  exact ⟨gap, v, rfl, rfl⟩

theorem interpolate_eq (h : Valued provider quotes text first parts values) {texts : List String}
    (hlength : texts.length = values.length) :
    interpolate text texts = filled first (parts.zip texts) := by
  have hparts : parts.length = texts.length := h.value.length_eq.trans hlength.symm
  rw [interpolate, completeSpans_of_placed h.source]
  have hfill := @interpolateFrom_embed first parts texts hparts []
  rw [List.nil_append, ← h.text_eq] at hfill
  exact hfill

end Valued

/-- One report if a value is not among the allowed ones, and none if it is. -/
def Judges (allowed : List AllowedValue) (value : String) (place : Span)
    (said : List Diagnostic) : Prop :=
  value ∈ allowed.map (·.value) ∧ said = [] ∨
    value ∉ allowed.map (·.value) ∧
      said = [.error ("'" ++ value ++ "' is not in the list of allowed values") place]

theorem checkAllowed_judges (allowed : List AllowedValue) (value : String) (place : Span) :
    Judges allowed value place (checkAllowed value place allowed) := by
  have hany : allowed.any (·.value == value) = true ↔ value ∈ allowed.map (·.value) := by
    simp
  unfold checkAllowed
  split
  next h => exact .inl ⟨hany.mp h, rfl⟩
  next h => exact .inr ⟨fun hmem => h (hany.mpr hmem), rfl⟩

/-- Allowed values are asked of the text as it reads once every marker is replaced by its own value.
A text that is one marker is judged by that marker, at its place, and any other text at the place of
the scalar; where a value that is needed is not known, nothing is said. -/
theorem allowed_of_interpolated {quotes : Yaml.Style} {text : List Char} {n : SyntaxNode}
    {allowed : List AllowedValue} (hn : n.content = Tree.decode quotes (quoted quotes text))
    (hflow : quotes ≠ .block) (hmarked : hasMarkers text = true)
    (hallowed : shape.allowedValues d.workflow path = some allowed)
    (hvalues : ∀ m ∈ markers (quoted quotes text),
      ∃ v, marker (d.contexts d.workflow path) m = .ok v) :
    ∃ first parts values, Valued (d.contexts d.workflow path) quotes text first parts values ∧
      (∀ source, IsMarker (trim text) source → ∃ gap v, parts = [(source, gap)] ∧ values = [v] ∧
        (v = .indeterminate → scalar d shape implicit path n = []) ∧
        ∀ w, v = .known w → Judges allowed w.display
          ⟨n.span.start + (quoteOf quotes ++ first).length, n.span.start + (quoteOf quotes ++
            first ++ Marker.opening ++ source ++ Marker.closing).length⟩
          (scalar d shape implicit path n)) ∧
      ((∀ source, ¬IsMarker (trim text) source) →
        (.indeterminate ∈ values → scalar d shape implicit path n = []) ∧
        ∀ known : List Json, values = known.map .known →
          Judges allowed (String.ofList (filled first (parts.zip (known.map Json.display)))) n.span
            (scalar d shape implicit path n)) := by
  obtain ⟨first, parts, values, h⟩ := exists_valued hvalues
  have hscalar : scalar d shape implicit path n = _ := h.scalar_eq hn hflow hmarked hallowed
  refine ⟨first, parts, values, h, fun source hm => ?_, fun hnot => ?_⟩
  · obtain ⟨gap, v, rfl, rfl⟩ := h.exists_single hm
    have hsingle : isSingleMarker text = true := (isSingleMarker_iff text).mpr ⟨source, hm⟩
    rw [hscalar, h.markersOf_single]
    simp only [checkEvaluated, hsingle, if_true]
    refine ⟨gap, v, rfl, rfl, ?_, ?_⟩
    · rintro rfl
      rfl
    · rintro w rfl
      exact checkAllowed_judges _ _ _
  · have hwhole : isSingleMarker text = false := by
      rw [Bool.eq_false_iff, Ne, isSingleMarker_iff]
      exact not_exists.mpr hnot
    have hreport := (h.markersOf_eq n.span.start).1
    rw [hscalar, checkEvaluated_whole hwhole]
    constructor
    · intro hmem
      rw [knownTexts?_of_indeterminate (hreport ▸ hmem)]
    · rintro known rfl
      rw [knownTexts?_of_known hreport, ← h.interpolate_eq (by simp)]
      exact checkAllowed_judges _ _ _

def versionPair : String := "v" ++ inMarker "1" ++ "-" ++ inMarker "'x'"

theorem evaluates_of_all {provider : ContextProvider} {text : List Char}
    (h : (markers text).all (fun m => (marker provider m).toOption.isSome) = true) :
    ∀ m ∈ markers text, ∃ v, marker provider m = .ok v := by
  intro m hm
  have hsome := List.all_eq_true.mp h m hm
  cases hv : marker provider m with
  | ok v => exact ⟨v, rfl⟩
  | error message =>
    rw [hv] at hsome
    cases hsome

/-- Two markers with a gap before each of them, between double quotes. -/
theorem allowed_of_interpolated_pair :
    scalar noContexts linuxOnly false [] (loneScalar .doubleQuoted versionPair) =
      [.error "'v1-x' is not in the list of allowed values" ⟨0, 22⟩] ∧
    ∃ first parts values,
      Valued (noContexts.contexts noContexts.workflow []) .doubleQuoted versionPair.toList first
        parts values ∧
      ∀ known : List Json, values = known.map .known →
        Judges [⟨"linux", none⟩]
          (String.ofList (filled first (parts.zip (known.map Json.display)))) ⟨0, 22⟩
          (scalar noContexts linuxOnly false [] (loneScalar .doubleQuoted versionPair)) := by
  have hnot (source : List Char) : ¬IsMarker (trim versionPair.toList) source := by
    intro hm
    have hsingle := (isSingleMarker_iff versionPair.toList).mpr ⟨source, hm⟩
    revert hsingle
    decide +kernel
  obtain ⟨first, parts, values, hvalued, -, hwhole⟩ :=
    @allowed_of_interpolated noContexts linuxOnly false [] .doubleQuoted versionPair.toList
      (loneScalar .doubleQuoted versionPair) [⟨"linux", none⟩] rfl (by decide) (by decide +kernel)
      rfl (evaluates_of_all (by decide +kernel))
  exact ⟨by decide +kernel, first, parts, values, hvalued, (hwhole hnot).2⟩

end Check
end WorkflowLint
