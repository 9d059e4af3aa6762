import WorkflowLint.Analysis
import WorkflowLint.Proofs.Check.Markers
import WorkflowLint.Proofs.Check.Structure
import WorkflowLint.Proofs.Tree.WellFormed

/-! Every report is about a stretch of the text: what the walk says is about a part of some node, and
what is wrong with the text as such is inside of the text. -/
namespace WorkflowLint
open Text

def SyntaxNode.written? (n : SyntaxNode) : Option (List Char) :=
  match n.content with
  | .scalar .empty _ _ => none
  | .scalar _ raw _ => some raw.toList
  | _ => none

/-- A tree over a text: its nodes are stretches of the text, its scalars have the characters that
are written there, and its keys are among its nodes. -/
structure SyntaxTree.Over (tree : SyntaxTree) (text : List Char) : Prop where
  span_le : ∀ n ∈ tree.nodes, n.span.start ≤ n.span.stop ∧ n.span.stop ≤ text.length
  written : ∀ n ∈ tree.nodes, ∀ raw ∈ n.written?, raw = (text.take n.span.stop).drop n.span.start
  key_lt : ∀ n ∈ tree.nodes, ∀ p ∈ n.pairs, p.1 < tree.size

theorem Tree.Outline.written_node {text raw : List Char} {id : Nat} {parent : Option Nat}
    {o : Outline} (h : raw ∈ (o.node (.ofText text) id parent).written?) :
    raw = (text.take (o.node (.ofText text) id parent).span.stop).drop
      (o.node (.ofText text) id parent).span.start := by
  cases o with
  | nothing | sequence | map => cases h
  | scalar style bytes =>
    have hraw : some ((Source.ofText text).slice ((Source.ofText text).span bytes)) = some raw := by
      cases style <;> simpa [node, decode, SyntaxNode.written?] using h
    rw [← Option.some.inj hraw]
    simp [Source.slice, Source.ofText, node, Outline.bytes, List.extract_eq_take_drop, List.drop_take]

theorem SyntaxTree.ofOutline_over (text : List Char) {top : Tree.Outline} (h : top.Ordered) :
    (ofOutline (.ofText text) top).Over text where
  span_le n hn := by
    obtain ⟨id, parent, o, hstands, rfl⟩ := exists_of_mem_nodes hn
    obtain ⟨hle, _, _, _⟩ := hstands.ordered h
    simp only [Tree.Outline.node, Tree.Source.span, Tree.Source.place_ofText]
    exact ⟨charOffset_mono text hle, charOffset_le_length text _⟩
  written n hn raw hraw := by
    obtain ⟨id, parent, o, -, rfl⟩ := exists_of_mem_nodes hn
    exact Tree.Outline.written_node hraw
  key_lt n hn p hp := by
    obtain ⟨id, parent, o, hstands, rfl⟩ := exists_of_mem_nodes hn
    have hchild : p.1 ∈ (ofOutline (.ofText text) top).childrenOf id := by
      rw [childrenOf_of_stands hstands, ← Tree.Outline.node_children id parent o]
      exact List.mem_append_left _ (List.mem_flatMap.mpr ⟨p, hp, by simp⟩)
    exact (ofOutline_arena (.ofText text) top).child_lt_size hchild

theorem SyntaxTree.ofConcrete_over (text : List Char) {concrete : Yaml.Concrete}
    (h : concrete.Sound) : (ofConcrete text concrete).Over text := by
  unfold ofConcrete
  split
  · exact ⟨by simp [empty], by simp [empty], by simp [empty]⟩
  · next top htop =>
    exact ofOutline_over text (Tree.Outline.ofConcrete?_fits concrete h htop).ordered

namespace Check
variable {d : Document} {schema : Shape}

/-! Scalars -/

theorem mem_checkAllowed {value : String} {span : Span} {allowed : List AllowedValue}
    {x : Diagnostic} (h : x ∈ checkAllowed value span allowed) : x.span = span := by
  unfold checkAllowed at h
  split at h
  · cases h
  · rw [List.mem_singleton.mp h]
    rfl

theorem implicitExpression_span {provider : ContextProvider} {text : List Char} {span : Span}
    {x : Diagnostic} (h : x ∈ (implicitExpression provider text span).2) : x.span = span := by
  unfold implicitExpression at h
  split at h
  · cases h
  · split at h
    · cases h
    · rw [List.mem_singleton.mp h]
      rfl

theorem trimEnd_length_le (text : List Char) : (trimEnd text).length ≤ text.length := by
  have h := (List.dropWhile_sublist (l := text.reverse) isBlank).length_le
  simpa [trimEnd] using h

theorem tail_dropLast_length (raw : List Char) : raw.tail.dropLast.length = raw.length - 2 := by
  simp only [List.length_dropLast, List.length_tail]
  omega

theorem condition_inside (style : ScalarStyle) (raw value : String) (start : Nat)
    (hstyle : style ≠ .empty) :
    (condition style raw value start).2.Inside ⟨start, start + raw.toList.length⟩ := by
  unfold condition
  split
  · have hbody : (raw.toList.takeWhile (· ≠ '\n')).length ≤ raw.toList.length :=
      (List.takeWhile_sublist _).length_le
    have hindent := ((raw.toList.drop
      (min ((raw.toList.takeWhile (· ≠ '\n')).length + 1) raw.toList.length)).takeWhile_sublist
        isBlank).length_le
    have hend := trimEnd_length_le raw.toList
    rw [List.length_drop] at hindent
    constructor <;> simp only <;> omega
  · next hblock =>
    cases style with
    | block => exact absurd rfl hblock
    | empty => exact absurd rfl hstyle
    | plain => exact .refl (Nat.le_add_right _ _)
    | singleQuoted | doubleQuoted =>
      simp only [source]
      split
      · next hsize =>
        have hpos : 0 < raw.toList.length := by
          rw [List.length_pos_iff]
          intro hnil
          simp [String.toList_eq_nil_iff.mp hnil] at hsize
        constructor <;> simp only [tail_dropLast_length] <;> omega
      · exact .refl (Nat.le_add_right _ _)

theorem markersOf_inside {provider : ContextProvider} {text : List Char} {base : Nat} :
    (∀ x ∈ (markersOf provider text base).diagnostics,
      x.span.Inside ⟨base, base + text.length⟩) ∧
    ∀ v ∈ (markersOf provider text base).values, v.span.Inside ⟨base, base + text.length⟩ := by
  rw [markersOf_eq]
  constructor
  · intro x hx
    obtain ⟨m, hm, hx⟩ := List.mem_filterMap.mp hx
    split at hx
    · cases hx
    · cases hx
      exact absolute_inside text base (Marker.le_of_mem_markers hm)
  · intro v hv
    obtain ⟨m, hm, hv⟩ := List.mem_filterMap.mp hv
    split at hv
    · cases hv
      exact absolute_inside text base (Marker.le_of_mem_markers hm)
    · cases hv

theorem scalarText_inside {shape : Shape} {implicit : Bool} {path : Path} {style : ScalarStyle}
    {raw value : String} {span : Span} (hstyle : style ≠ .empty)
    (hspan : span = ⟨span.start, span.start + raw.toList.length⟩) {x : Diagnostic}
    (hx : x ∈ scalarText d shape implicit path style raw value span) : x.span.Inside span := by
  have hself : span.Inside span := by
    rw [hspan]
    exact .refl (Nat.le_add_right _ _)
  unfold scalarText scalarAgainst at hx
  dsimp only at hx
  split at hx
  · obtain ⟨hdiagnostics, hvalues⟩ :=
      @markersOf_inside (d.contexts d.workflow path) raw.toList span.start
    rw [← hspan] at hdiagnostics hvalues
    split at hx
    · exact hdiagnostics x hx
    · obtain hx | hx := List.mem_append.mp hx
      · exact hdiagnostics x hx
      · split at hx
        · obtain ⟨text, place, hx, hplace⟩ := mem_checkEvaluated hx
          rw [mem_checkAllowed hx]
          obtain rfl | ⟨v, hv, rfl⟩ := hplace
          · exact hself
          · exact hvalues v hv
        · cases hx
  · split at hx
    · rw [implicitExpression_span hx, hspan]
      exact condition_inside style raw value span.start hstyle
    · split at hx
      · rw [mem_checkAllowed hx]
        exact hself
      · cases hx

/-! Calls -/

theorem mem_nodes_of_node? {tree : SyntaxTree} {id : Nat} {n : SyntaxNode}
    (hn : tree.node? id = some n) : n ∈ tree.nodes :=
  Array.mem_of_getElem? hn

section Tree
variable {text : List Char} (h : d.tree.Over text)
include h

theorem scalar_inside {shape : Shape} {implicit : Bool} {path : Path} {n : SyntaxNode}
    (hn : n ∈ d.tree.nodes) {x : Diagnostic} (hx : x ∈ scalar d shape implicit path n) :
    x.span.Inside n.span := by
  obtain ⟨hle, hlength⟩ := h.span_le n hn
  cases hc : n.content with
  | scalar style raw value =>
    simp only [scalar, hc] at hx
    split at hx
    · cases hx
    · next hnull =>
      have hstyle : style ≠ .empty := by
        rintro rfl
        simp [SyntaxNode.isNull, hc] at hnull
      have hwritten : n.written? = some raw.toList := by
        cases style <;> simp_all [SyntaxNode.written?]
      have hraw : raw.toList.length = n.span.stop - n.span.start := by
        rw [h.written n hn raw.toList hwritten, List.length_drop, List.length_take]
        omega
      refine scalarText_inside hstyle ?_ hx
      rw [hraw, Nat.add_sub_cancel' hle]
  | _ =>
    simp only [scalar, hc, List.mem_singleton] at hx
    rw [hx]
    exact .refl hle

theorem node_inside {id : Nat} {n : SyntaxNode} (hn : d.tree.node? id = some n) :
    ∃ m ∈ d.tree.nodes, n.span.Inside m.span := by
  have hmem := mem_nodes_of_node? hn
  exact ⟨n, hmem, .refl (h.span_le n hmem).1⟩

theorem key_inside {id : Nat} {n : SyntaxNode} {p : Nat × Nat} (hn : d.tree.node? id = some n)
    (hp : p ∈ n.pairs) : ∃ m ∈ d.tree.nodes, (d.tree.spanOf p.1).Inside m.span := by
  have hlt := h.key_lt n (mem_nodes_of_node? hn) p hp
  have hm : d.tree.node? p.1 = some d.tree.nodes[p.1] := Array.getElem?_eq_getElem hlt
  simpa [SyntaxTree.spanOf, hm] using node_inside h hm

theorem Reached.owner_inside {c : Call} (hc : Reached d schema c) {key : Nat}
    (hkey : c.owner = some key) : ∃ m ∈ d.tree.nodes, (d.tree.spanOf key).Inside m.span := by
  induction hc with
  | root => cases hkey
  | step _ hs ih =>
    cases hs with
    | choice | lone => exact ih hkey
    | item => cases hkey
    | @value _ _ _ _ _ _ _ n before k v after _ hn hm _ _ =>
      obtain rfl := Option.some.inj hkey
      exact key_inside h hn (p := (k, v)) (by simp [SyntaxNode.pairs, hm])

theorem Flaw.inside {c : Call} (hc : Reached d schema c) {site : Site} {x : Diagnostic}
    (hx : Flaw d c site x) : ∃ n ∈ d.tree.nodes, x.span.Inside n.span := by
  cases hx with
  | @repeated _ _ _ _ _ _ _ n before k v after hn hm _ =>
    exact key_inside h hn (p := (k, v)) (by simp [SyntaxNode.pairs, hm])
  | @notAllowed _ _ _ _ _ _ _ n before k v after hn hm _ _ =>
    exact key_inside h hn (p := (k, v)) (by simp [SyntaxNode.pairs, hm])
  | @missing id _ _ _ _ _ owner n pairs _ _ hn hm _ _ =>
    -- at the key above the mapping, else at the first key in it, else at the mapping
    cases owner with
    | some key => exact hc.owner_inside h rfl
    | none =>
      cases pairs with
      | nil => exact node_inside h hn
      | cons p pairs => exact key_inside h hn (by simp [SyntaxNode.pairs, hm])
  | notMapping hn _ _ => exact node_inside h hn
  | notScalar hn _ => exact node_inside h hn
  | noAlternative hn _ => exact node_inside h hn

theorem Call.findings_inside {c : Call} (hc : Reached d schema c) {f : Site × Diagnostic}
    (hf : f ∈ c.findings d) : ∃ n ∈ d.tree.nodes, f.2.span.Inside n.span := by
  obtain hflaw | ⟨-, n, implicit, hn, -, hx⟩ := Call.findings_cases hf
  · exact hflaw.inside h hc
  · exact ⟨n, mem_nodes_of_node? hn, scalar_inside h (mem_nodes_of_node? hn) hx⟩

end Tree

theorem exists_finding {x : Diagnostic} (hx : x ∈ (document d schema).diagnostics) :
    ∃ c site, Reached d schema c ∧ (site, x) ∈ c.findings d := by
  cases hr : d.tree.root with
  | none => simp [document, hr] at hx
  | some root =>
    have hdoc : document d schema = Call.report d ⟨root, schema, [], none⟩ := by
      simp [document, hr, Call.report]
    rw [hdoc, (Call.report_perm_all _).mem_iff, List.mem_map] at hx
    obtain ⟨⟨site, x⟩, hf, rfl⟩ := hx
    obtain ⟨c, hc, hf⟩ := List.mem_flatMap.mp hf
    exact ⟨c, site, (reached_iff_mem_all hr).mpr hc, hf⟩

theorem mem_syntaxErrors {text : List Char} {x : Diagnostic} (hx : x ∈ Analysis.syntaxErrors text) :
    x.span.start = x.span.stop ∧ x.span.stop ≤ text.length := by
  unfold Analysis.syntaxErrors at hx
  split at hx
  · rw [List.mem_singleton.mp hx]
    refine ⟨rfl, ?_⟩
    simp only [Diagnostic.error, Span.point, CharIndex.toChar_ofText]
    exact charOffset_le_length _ _
  · cases hx

section
variable {text : List Char} {tree : SyntaxTree}

theorem document_inside (h : tree.Over text) (schema : Shape) (workflow : Yaml.Value)
    (contexts : ContextFactory) :
    ∀ x ∈ (document ⟨tree, workflow, contexts⟩ schema).diagnostics,
      ∃ n ∈ tree.nodes, x.span.Inside n.span := by
  intro x hx
  obtain ⟨c, site, hc, hf⟩ := exists_finding hx
  exact Call.findings_inside (d := ⟨tree, workflow, contexts⟩) h hc hf

theorem ofDocument_inside (h : tree.Over text) (schema : Shape) (workflow : Yaml.Value)
    (contexts : ContextFactory) :
    ∀ x ∈ (Analysis.ofDocument schema ⟨tree, workflow, contexts⟩
        (Analysis.syntaxErrors text)).diagnostics,
      x.span.start ≤ x.span.stop ∧ x.span.stop ≤ text.length := by
  intro x hx
  have hmem : x ∈ Analysis.syntaxErrors text ++
      (document ⟨tree, workflow, contexts⟩ schema).diagnostics :=
    (List.mergeSort_perm _ _).mem_iff.mp hx
  obtain hx | hx := List.mem_append.mp hmem
  · obtain ⟨heq, hle⟩ := mem_syntaxErrors hx
    exact ⟨Nat.le_of_eq heq, hle⟩
  · obtain ⟨n, hn, hinside⟩ := document_inside h schema workflow contexts x hx
    exact ⟨hinside.le, Nat.le_trans hinside.stop (h.span_le n hn).2⟩

end

/-- Whatever is reported about a text is about a stretch of it: the error of a text that is no
document, and all that a walk says of a tree over the text, which is also inside of some node. -/
theorem diagnostics_inside {text : List Char} {tree : SyntaxTree} (h : tree.Over text)
    (schema : Shape) (workflow : Yaml.Value) (contexts : ContextFactory) :
    (∀ x ∈ (document ⟨tree, workflow, contexts⟩ schema).diagnostics,
      ∃ n ∈ tree.nodes, x.span.Inside n.span) ∧
    ∀ x ∈ (Analysis.ofDocument schema ⟨tree, workflow, contexts⟩
        (Analysis.syntaxErrors text)).diagnostics,
      x.span.start ≤ x.span.stop ∧ x.span.stop ≤ text.length :=
  ⟨document_inside h schema workflow contexts, ofDocument_inside h schema workflow contexts⟩

def accented : List Char := "é: '$\x7b\x7b ü \x7d\x7d'\nif: |\n  é +\n".toList

def accentedTree : SyntaxTree where
  nodes := #[
    ⟨.map [(1, 2), (3, 4)], ⟨0, 26⟩, none⟩,
    ⟨.scalar .plain "é" "é", ⟨0, 1⟩, some 0⟩,
    ⟨.scalar .singleQuoted "'$\x7b\x7b ü \x7d\x7d'" "$\x7b\x7b ü \x7d\x7d", ⟨3, 13⟩, some 0⟩,
    ⟨.scalar .plain "if" "if", ⟨14, 16⟩, some 0⟩,
    ⟨.scalar .block "|\n  é +\n" "é +\n", ⟨18, 26⟩, some 0⟩]
  root := some 0

def accentedDocument : Document := ⟨accentedTree, .null, fun _ _ _ => none⟩

def accentedShape : Shape := .map .none [("é", .scalar), ("if", .expression)] none ["on"]

theorem diagnostics_inside_accented :
    accentedTree.Over accented ∧
    (document accentedDocument accentedShape).diagnostics =
      [.error "Invalid expression" ⟨4, 12⟩, .error "Invalid expression" ⟨22, 25⟩,
        .error "Missing required key 'on'" ⟨0, 1⟩] ∧
    (∀ x ∈ (document accentedDocument accentedShape).diagnostics,
      ∃ n ∈ accentedTree.nodes, x.span.Inside n.span) ∧
    ∀ x ∈ (Analysis.ofDocument accentedShape accentedDocument
        (Analysis.syntaxErrors accented)).diagnostics,
      x.span.start ≤ x.span.stop ∧ x.span.stop ≤ accented.length := by
  have hover : accentedTree.Over accented := ⟨by decide, by decide, by decide⟩
  exact ⟨hover, by decide +kernel, diagnostics_inside hover accentedShape .null fun _ _ _ => none⟩

/-- The tree of a text is over it, so the analysis of any text stays within the text. -/
theorem ofText_inside {text : List Char} (h : (Yaml.Concrete.ofText text).Sound) (schema : Shape)
    (contexts : ContextFactory) :
    (∀ x ∈ (Analysis.ofText schema contexts text).report.diagnostics,
      ∃ n ∈ (SyntaxTree.ofText text).nodes, x.span.Inside n.span) ∧
    ∀ x ∈ (Analysis.ofText schema contexts text).diagnostics,
      x.span.start ≤ x.span.stop ∧ x.span.stop ≤ text.length := by
  have hover : (SyntaxTree.ofText text).Over text := SyntaxTree.ofConcrete_over text h
  exact ⟨document_inside hover schema _ contexts, ofDocument_inside hover schema _ contexts⟩

end Check
end WorkflowLint
