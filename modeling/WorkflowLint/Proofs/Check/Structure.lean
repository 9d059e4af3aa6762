import WorkflowLint.Proofs.Check.Calls
import WorkflowLint.Proofs.Check.Markers
import WorkflowLint.Proofs.Tree.Arena
import Mathlib.Data.List.Nodup

/-! The structure of a document: repeated keys, keys that are not allowed, keys that are missing and
nodes of the wrong kind. A walk through a sound tree reports each of them once and nothing else. -/
namespace WorkflowLint.Check
variable {d : Document}

def isStructural (message : String) : Bool :=
  ["Key '", "Missing required key '", "Expected "].any fun start =>
    start.toList.isPrefixOf message.toList

/-- What can be wrong with the structure at a call, and what is said about it. -/
inductive Flaw (d : Document) : Call → Site → Diagnostic → Prop
  | repeated {id note keys additional required path owner n before k v after} :
      d.tree.node? id = some n → n.content = .map (before ++ (k, v) :: after) →
      (∃ p ∈ before, d.tree.valueOf p.1 = d.tree.valueOf k) →
      Flaw d ⟨id, .map note keys additional required, path, owner⟩ (.key k)
        (.error ("Key '" ++ d.tree.valueOf k ++ "' is already defined") (d.tree.spanOf k))
  | notAllowed {id note keys additional required path owner n before k v after} :
      d.tree.node? id = some n → n.content = .map (before ++ (k, v) :: after) →
      (∀ p ∈ before, d.tree.valueOf p.1 ≠ d.tree.valueOf k) →
      (Shape.map note keys additional required).key? (d.tree.valueOf k) = none →
      Flaw d ⟨id, .map note keys additional required, path, owner⟩ (.key k)
        (.error ("Key '" ++ d.tree.valueOf k ++ "' is not allowed") (d.tree.spanOf k))
  | missing {id note keys additional required path owner n pairs i name} :
      d.tree.node? id = some n → n.content = .map pairs → required[i]? = some name →
      (∀ p ∈ pairs, d.tree.valueOf p.1 ≠ name) →
      Flaw d ⟨id, .map note keys additional required, path, owner⟩ (.required id i)
        (.error ("Missing required key '" ++ name ++ "'")
          (((owner.or (pairs.head?.map (·.1))).map d.tree.spanOf).getD n.span))
  | notMapping {id note keys additional required path owner n} :
      d.tree.node? id = some n → n.isMap = false → n.isNull = false →
      Flaw d ⟨id, .map note keys additional required, path, owner⟩ (.node id)
        (.error "Expected a mapping" n.span)
  | notScalar {id note allowed implicit path owner n} :
      d.tree.node? id = some n → n.isScalar = false →
      Flaw d ⟨id, .value note allowed implicit, path, owner⟩ (.node id)
        (.error "Expected a scalar value" n.span)
  | noAlternative {id note alternatives path owner n} :
      d.tree.node? id = some n → chosen? n alternatives = none →
      Flaw d ⟨id, .oneOf note alternatives, path, owner⟩ (.node id)
        (.error ("Expected " ++ expected alternatives) n.span)

/-! Messages -/

theorem isStructural_of_start {start : String}
    (h : start ∈ ["Key '", "Missing required key '", "Expected "]) (rest : String) :
    isStructural (start ++ rest) = true := by
  rw [isStructural, List.any_eq_true]
  refine ⟨start, h, ?_⟩
  rw [List.isPrefixOf_iff_prefix, String.toList_append]
  exact List.prefix_append _ _

theorem Flaw.isStructural {c : Call} {site : Site} {x : Diagnostic} (h : Flaw d c site x) :
    isStructural x.message = true := by
  cases h with
  | repeated | notAllowed | missing =>
    simp only [Diagnostic.error, String.append_assoc]
    exact isStructural_of_start (by simp) _
  | notMapping => exact @isStructural_of_start "Expected " (by simp) "a mapping"
  | notScalar => exact @isStructural_of_start "Expected " (by simp) "a scalar value"
  | noAlternative => exact isStructural_of_start (by simp) _

theorem not_isStructural_of_first {c : Char} {message : String}
    (h : message.toList.head? = some c) (hc : c ∉ ['K', 'M', 'E']) :
    isStructural message = false := by
  obtain ⟨rest, hm⟩ : ∃ rest, message.toList = c :: rest := by
    cases hl : message.toList with
    | nil => simp [hl] at h
    | cons c' rest => exact ⟨rest, by simpa [hl] using h⟩
  simp only [List.mem_cons, List.not_mem_nil, or_false, not_or] at hc
  simp [isStructural, hm, List.isPrefixOf, Ne.symm hc.1, Ne.symm hc.2.1, Ne.symm hc.2.2]

theorem invalidExpression_not_structural : isStructural Expr.invalidExpression = false := by
  decide

theorem expression_not_structural {provider : ContextProvider} {source : List Char}
    {message : String} (h : expression provider source = .error message) :
    isStructural message = false := by
  unfold expression at h
  split at h
  · cases h
    exact invalidExpression_not_structural
  · dsimp only at h
    split at h
    · cases h
      unfold Expr.EvalError.message Expr.Failure.message
      split
      · exact invalidExpression_not_structural
      · exact not_isStructural_of_first (c := 'U') (by simp) (by simp)
      · decide
    · cases h

theorem checkAllowed_not_structural {value : String} {span : Span} {allowed : List AllowedValue}
    {x : Diagnostic} (h : x ∈ checkAllowed value span allowed) :
    isStructural x.message = false := by
  unfold checkAllowed at h
  split at h
  · cases h
  · rw [List.mem_singleton.mp h]
    exact not_isStructural_of_first (c := '\'') (by simp [Diagnostic.error]) (by simp)

theorem markersOf_not_structural {provider : ContextProvider} {text : List Char} {base : Nat}
    {x : Diagnostic} (h : x ∈ (markersOf provider text base).diagnostics) :
    isStructural x.message = false := by
  rw [markersOf_diagnostics, List.mem_filterMap] at h
  obtain ⟨m, -, hm⟩ := h
  split at hm
  · cases hm
  · next message he =>
    cases hm
    cases m with
    | complete source span => exact expression_not_structural he
    | unterminated span =>
      cases he
      exact invalidExpression_not_structural

theorem scalarText_not_structural {shape : Shape} {implicit : Bool} {path : Path}
    {style : ScalarStyle} {raw value : String} {span : Span} {x : Diagnostic}
    (h : x ∈ scalarText d shape implicit path style raw value span) :
    isStructural x.message = false := by
  unfold scalarText scalarAgainst at h
  dsimp only at h
  split at h
  · split at h
    · exact markersOf_not_structural h
    · obtain h | h := List.mem_append.mp h
      · exact markersOf_not_structural h
      · split at h
        · obtain ⟨value, place, h, -⟩ := mem_checkEvaluated h
          exact checkAllowed_not_structural h
        · cases h
  · split at h
    · unfold implicitExpression at h
      split at h
      · cases h
      · split at h
        · cases h
        · next he =>
          rw [List.mem_singleton.mp h]
          exact expression_not_structural he
    · split at h
      · exact checkAllowed_not_structural h
      · cases h

/-! Findings and flaws -/

def Site.isText : Site → Bool
  | .text _ => true
  | _ => false

def Site.home (tree : SyntaxTree) : Site → Option Nat
  | .key k => tree.parentOf k
  | .required id _ | .node id | .text id => some id

theorem Flaw.site_not_text {c : Call} {site : Site} {x : Diagnostic} (h : Flaw d c site x) :
    site.isText = false := by
  cases h <;> rfl

namespace Call

theorem keyFinding?_eq_some {c : Call} {k v : Nat} {isRepeated : Bool} {f : Site × Diagnostic} :
    c.keyFinding? d (k, v, isRepeated) = some f ↔
      (isRepeated = true ∧ f = (.key k,
        .error ("Key '" ++ d.tree.valueOf k ++ "' is already defined") (d.tree.spanOf k))) ∨
      (isRepeated = false ∧ c.shape.key? (d.tree.valueOf k) = none ∧ f = (.key k,
        .error ("Key '" ++ d.tree.valueOf k ++ "' is not allowed") (d.tree.spanOf k))) := by
  cases isRepeated with
  | true => simp [keyFinding?, eq_comm]
  | false => cases hs : c.shape.key? (d.tree.valueOf k) <;> simp [keyFinding?, hs, eq_comm]

theorem mem_missingFindings {c : Call} {n : SyntaxNode} {required : List String}
    {f : Site × Diagnostic} :
    f ∈ c.missingFindings d n required ↔ ∃ i name, required[i]? = some name ∧
      (∀ p ∈ n.pairs, d.tree.valueOf p.1 ≠ name) ∧ f = (.required c.id i,
        .error ("Missing required key '" ++ name ++ "'") (c.missingPlace d n)) := by
  unfold missingFindings
  rw [List.mem_map]
  constructor
  · rintro ⟨⟨name, i⟩, hp, rfl⟩
    obtain ⟨hi, hname⟩ := List.mem_filter.mp hp
    refine ⟨i, name, List.mk_mem_zipIdx_iff_getElem?.mp hi, ?_, rfl⟩
    simpa using hname
  · rintro ⟨i, name, hi, hname, rfl⟩
    refine ⟨(name, i), List.mem_filter.mpr ⟨List.mk_mem_zipIdx_iff_getElem?.mpr hi, ?_⟩, rfl⟩
    simpa using hname

theorem scalar_not_structural {shape : Shape} {implicit : Bool} {path : Path} {n : SyntaxNode}
    {x : Diagnostic} (hs : n.isScalar = true) (h : x ∈ scalar d shape implicit path n) :
    isStructural x.message = false := by
  cases hc : n.content with
  | scalar style raw value =>
    simp only [scalar, hc] at h
    split at h
    · cases h
    · exact scalarText_not_structural h
  | _ => simp [SyntaxNode.isScalar, hc] at hs

theorem scalar_of_not_isScalar {shape : Shape} {implicit : Bool} {path : Path} {n : SyntaxNode}
    (h : n.isScalar = false) :
    scalar d shape implicit path n = [.error "Expected a scalar value" n.span] := by
  cases hc : n.content with
  | scalar style raw value => simp [SyntaxNode.isScalar, hc] at h
  | _ => simp [scalar, hc]

theorem flaw_of_mem_map_findings {id : Nat} {note : Shape.Note} {keys : List (String × Shape)}
    {additional : Option Shape} {required : List String} {path : Path} {owner : Option Nat}
    {n : SyntaxNode} {site : Site} {x : Diagnostic} (hn : d.tree.node? id = some n)
    (h : (site, x) ∈ findings d ⟨id, .map note keys additional required, path, owner⟩) :
    Flaw d ⟨id, .map note keys additional required, path, owner⟩ site x := by
  simp only [findings, hn] at h
  cases hc : n.content with
  | map pairs =>
    simp only [hc, List.mem_append, List.mem_filterMap] at h
    obtain ⟨⟨k, v, isRepeated⟩, hp, hf⟩ | h := h
    · obtain ⟨before, after, rfl, hiff⟩ := mem_markRepeated.mp hp
      obtain ⟨rfl, heq⟩ | ⟨rfl, hkey, heq⟩ := keyFinding?_eq_some.mp hf
      · obtain ⟨rfl, rfl⟩ := Prod.mk.inj heq
        exact .repeated hn hc (by simpa using hiff)
      · obtain ⟨rfl, rfl⟩ := Prod.mk.inj heq
        exact .notAllowed hn hc (by simpa using hiff) hkey
    · obtain ⟨i, name, hi, hname, heq⟩ := mem_missingFindings.mp h
      obtain ⟨rfl, rfl⟩ := Prod.mk.inj heq
      have hpairs : n.pairs = pairs := by simp [SyntaxNode.pairs, hc]
      rw [missingPlace, hpairs]
      exact .missing hn hc hi (hpairs ▸ hname)
  | _ =>
    have hmap : n.isMap = false := by simp [SyntaxNode.isMap, hc]
    simp only [hc] at h
    split at h
    · cases h
    · next hnull =>
      obtain ⟨rfl, rfl⟩ := Prod.mk.inj (List.mem_singleton.mp h)
      exact .notMapping hn hmap (by simpa using hnull)

/-- Whatever is found at a call is a flaw there, or else about the text of a scalar. -/
theorem findings_cases {c : Call} {site : Site} {x : Diagnostic} (h : (site, x) ∈ c.findings d) :
    Flaw d c site x ∨ site = .text c.id ∧ ∃ n implicit, d.tree.node? c.id = some n ∧
      n.isScalar = true ∧ x ∈ scalar d c.shape implicit c.path n := by
  obtain ⟨id, shape, path, owner⟩ := c
  cases hn : d.tree.node? id with
  | none => simp [findings, hn] at h
  | some n =>
    cases shape with
    | map note keys additional required => exact .inl (flaw_of_mem_map_findings hn h)
    | sequence note item => simp [findings, hn] at h
    | oneOf note alternatives =>
      simp only [findings, hn] at h
      split at h
      · next hc =>
        obtain ⟨rfl, rfl⟩ := Prod.mk.inj (List.mem_singleton.mp h)
        exact .inl (.noAlternative hn (by simpa using hc))
      · cases h
    | value note allowed implicit =>
      simp only [findings, hn] at h
      cases hscalar : n.isScalar with
      | true =>
        obtain ⟨y, hy, heq⟩ := List.mem_map.mp h
        obtain ⟨rfl, rfl⟩ := Prod.mk.inj heq
        exact .inr ⟨by simp [hscalar], n, implicit, rfl, hscalar, hy⟩
      | false =>
        rw [scalar_of_not_isScalar hscalar] at h
        obtain ⟨rfl, rfl⟩ : site = .node id ∧ x = .error "Expected a scalar value" n.span := by
          simpa [hscalar] using h
        exact .inl (.notScalar hn hscalar)

theorem mem_findings_of_flaw {c : Call} {site : Site} {x : Diagnostic} (h : Flaw d c site x) :
    (site, x) ∈ c.findings d := by
  cases h with
  | @repeated id note keys additional required path owner n before k v after hn hc hp =>
    have hk : (k, v, true) ∈ markRepeated d.tree [] (before ++ (k, v) :: after) :=
      mem_markRepeated.mpr ⟨before, after, rfl, by simpa using hp⟩
    simp only [findings, hn, hc]
    exact List.mem_append_left _
      (List.mem_filterMap.mpr ⟨_, hk, keyFinding?_eq_some.mpr (.inl ⟨rfl, rfl⟩)⟩)
  | @notAllowed id note keys additional required path owner n before k v after hn hc hp hkey =>
    have hk : (k, v, false) ∈ markRepeated d.tree [] (before ++ (k, v) :: after) :=
      mem_markRepeated.mpr ⟨before, after, rfl, by simpa using hp⟩
    simp only [findings, hn, hc]
    exact List.mem_append_left _
      (List.mem_filterMap.mpr ⟨_, hk, keyFinding?_eq_some.mpr (.inr ⟨rfl, hkey, rfl⟩)⟩)
  | @missing id note keys additional required path owner n pairs i name hn hc hi hname =>
    have hpairs : n.pairs = pairs := by simp [SyntaxNode.pairs, hc]
    simp only [findings, hn, hc]
    refine List.mem_append_right _ (mem_missingFindings.mpr ⟨i, name, hi, hpairs ▸ hname, ?_⟩)
    rw [missingPlace, hpairs]
  | @notMapping id note keys additional required path owner n hn hmap hnull =>
    cases hc : n.content with
    | map pairs => simp [SyntaxNode.isMap, hc] at hmap
    | _ => simp [findings, hn, hc, hnull]
  | notScalar hn hscalar => simp [findings, hn, scalar_of_not_isScalar hscalar, hscalar]
  | noAlternative hn hc => simp [findings, hn, hc]

theorem mem_findings_iff {c : Call} {site : Site} {x : Diagnostic} (hs : site.isText = false) :
    (site, x) ∈ c.findings d ↔ Flaw d c site x := by
  constructor
  · intro h
    obtain hf | ⟨rfl, -⟩ := findings_cases h
    · exact hf
    · cases hs
  · exact mem_findings_of_flaw

theorem isStructural_of_mem_findings {c : Call} {f : Site × Diagnostic} (h : f ∈ c.findings d) :
    isStructural f.2.message = !f.1.isText := by
  obtain hf | ⟨hs, n, implicit, -, hscalar, hx⟩ := findings_cases h
  · rw [hf.isStructural, hf.site_not_text]
    rfl
  · rw [hs, scalar_not_structural hscalar hx]
    rfl

/-! Once each -/

def flaws (d : Document) (c : Call) : List (Site × Diagnostic) :=
  (c.findings d).filter (!·.1.isText)

theorem mem_flaws {c : Call} {site : Site} {x : Diagnostic} :
    (site, x) ∈ c.flaws d ↔ Flaw d c site x := by
  rw [flaws, List.mem_filter]
  constructor
  · rintro ⟨h, hs⟩
    exact (mem_findings_iff (by simpa using hs)).mp h
  · intro h
    exact ⟨mem_findings_of_flaw h, by simp [h.site_not_text]⟩

theorem markRepeated_pairwise (h : d.tree.Arena) {id : Nat} {n : SyntaxNode}
    {pairs : List (Nat × Nat)} (hn : d.tree.node? id = some n) (hc : n.content = .map pairs) :
    (markRepeated d.tree [] pairs).Pairwise fun p q => p.1 ≠ q.1 ∧ p.2.1 ≠ q.2.1 := by
  have hp := h.pairwise_pairs id
  rw [SyntaxTree.pairsOf_eq hn hc, ← markRepeated_pairs d.tree [] pairs, List.pairwise_map] at hp
  exact hp

theorem nodup_missingFindings (c : Call) (n : SyntaxNode) (required : List String) :
    ((c.missingFindings d n required).map (·.1)).Nodup := by
  have hi : (required.zipIdx.map (·.2)).Nodup := by
    rw [List.zipIdx_map_snd]
    exact List.nodup_range'
  unfold missingFindings
  rw [List.map_map]
  refine List.pairwise_map.mpr (((List.pairwise_map.mp hi).filter _).imp ?_)
  intro p q hpq heq
  exact hpq (Site.required.inj heq).2

theorem nodup_keyFindings (h : d.tree.Arena) (c : Call) {n : SyntaxNode} {pairs : List (Nat × Nat)}
    (hn : d.tree.node? c.id = some n) (hc : n.content = .map pairs) :
    (((markRepeated d.tree [] pairs).filterMap (c.keyFinding? d)).map (·.1)).Nodup := by
  refine List.pairwise_map.mpr ((markRepeated_pairwise h hn hc).filterMap _ ?_)
  rintro ⟨k, v, r⟩ ⟨k', v', r'⟩ hne f hf f' hf' heq
  have hk : f.1 = .key k := by
    obtain ⟨-, rfl⟩ | ⟨-, -, rfl⟩ := keyFinding?_eq_some.mp hf <;> rfl
  have hk' : f'.1 = .key k' := by
    obtain ⟨-, rfl⟩ | ⟨-, -, rfl⟩ := keyFinding?_eq_some.mp hf' <;> rfl
  rw [hk, hk'] at heq
  exact hne.1 (Site.key.inj heq)

theorem nodup_map_findings (h : d.tree.Arena) (c : Call) {n : SyntaxNode}
    {pairs : List (Nat × Nat)} (required : List String) (hn : d.tree.node? c.id = some n)
    (hc : n.content = .map pairs) :
    (((markRepeated d.tree [] pairs).filterMap (c.keyFinding? d) ++
      c.missingFindings d n required).map (·.1)).Nodup := by
  rw [List.map_append, List.nodup_append]
  refine ⟨nodup_keyFindings h c hn hc, nodup_missingFindings c n required, ?_⟩
  rintro a ha b hb rfl
  obtain ⟨f, hf, rfl⟩ := List.mem_map.mp ha
  obtain ⟨g, hg, heq⟩ := List.mem_map.mp hb
  obtain ⟨⟨k, v, r⟩, -, hk⟩ := List.mem_filterMap.mp hf
  obtain ⟨i, name, -, -, rfl⟩ := mem_missingFindings.mp hg
  obtain ⟨-, rfl⟩ | ⟨-, -, rfl⟩ := keyFinding?_eq_some.mp hk <;> cases heq

theorem nodup_flaws (h : d.tree.Arena) (c : Call) : ((c.flaws d).map (·.1)).Nodup := by
  have hsub : (c.flaws d).Sublist (c.findings d) := List.filter_sublist
  obtain ⟨id, shape, path, owner⟩ := c
  cases hn : d.tree.node? id with
  | none => simp [flaws, findings, hn]
  | some n =>
    cases shape with
    | sequence note item => simp [flaws, findings, hn]
    | oneOf note alternatives =>
      refine List.Nodup.sublist (hsub.map _) ?_
      simp only [findings, hn]
      split <;> simp
    | value note allowed implicit =>
      cases hscalar : n.isScalar with
      | true => simp [flaws, findings, hn, hscalar, List.filter_map, Function.comp_def, Site.isText]
      | false => simp [flaws, findings, hn, hscalar, scalar_of_not_isScalar hscalar, Site.isText]
    | map note keys additional required =>
      refine List.Nodup.sublist (hsub.map _) ?_
      simp only [findings, hn]
      cases hc : n.content with
      | map pairs => exact nodup_map_findings h _ required hn hc
      | _ => by_cases hnull : n.isNull <;> simp [hnull]

theorem structural_perm (c : Call) :
    ((c.report d).diagnostics.filter (isStructural ·.message)).Perm
      (((c.all d).flatMap (flaws d)).map (·.2)) := by
  have hflaws (c' : Call) :
      (c'.findings d).filter ((isStructural ·.message) ∘ (·.2)) = c'.flaws d :=
    List.filter_congr fun _ hf => isStructural_of_mem_findings hf
  refine (c.report_perm_all.filter _).trans (.of_eq ?_)
  rw [List.filter_map, List.filter_flatMap]
  simp only [hflaws]

theorem home_of_flaw (h : d.tree.Arena) {c : Call} {site : Site} {x : Diagnostic}
    (hf : Flaw d c site x) : site.home d.tree = some c.id := by
  cases hf with
  | repeated hn hc _ | notAllowed hn hc _ _ =>
    exact h.parent_child _ _ (SyntaxTree.pair_children hn hc List.mem_append_cons_self).1
  | _ => rfl

theorem Step.within {c c' : Call} (h : Step d c c') : d.tree.Within c.id c'.id := by
  cases h with
  | choice | lone => exact .refl
  | item hn hc hx =>
    exact .child .refl (SyntaxTree.item_child hn hc (List.mem_of_getElem? hx))
  | value hn hc _ _ =>
    exact .child .refl (SyntaxTree.pair_children hn hc List.mem_append_cons_self).2

theorem within_of_mem_all {top c : Call} (h : c ∈ top.all d) : d.tree.Within top.id c.id :=
  @forall_mem_all d (fun c => d.tree.Within top.id c.id) top .refl
    (fun _ _ hw hs => hw.trans hs.within) c h

structure Apart (d : Document) (c : Call) : Prop where
  distinct : (c.next d).Pairwise fun a b => a.id ≠ b.id
  child : ∀ c' ∈ c.next d, c'.id ∈ d.tree.childrenOf c.id

theorem Apart.of_none {c : Call} (h : c.next d = []) : c.Apart d := by
  constructor <;> simp [h]

theorem Apart.of_items (h : d.tree.Arena) {id : Nat} {note : Shape.Note} {item : Shape} {path : Path}
    {owner : Option Nat} {n : SyntaxNode} {items : List Nat} (hn : d.tree.node? id = some n)
    (hc : n.content = .sequence items) : Apart d ⟨id, .sequence note item, path, owner⟩ := by
  have hitems := h.nodup_items id
  rw [SyntaxTree.itemsOf_eq hn hc, ← List.zipIdx_map_fst 0 items] at hitems
  constructor
  · simp only [next, hn, hc]
    exact List.pairwise_map.mpr (List.pairwise_map.mp hitems)
  · simp only [next, hn, hc]
    intro c' hc'
    obtain ⟨⟨x, i⟩, hx, rfl⟩ := List.mem_map.mp hc'
    exact SyntaxTree.item_child hn hc (List.fst_mem_of_mem_zipIdx hx)

theorem Apart.of_pairs (h : d.tree.Arena) {id : Nat} {note : Shape.Note}
    {keys : List (String × Shape)} {additional : Option Shape} {required : List String}
    {path : Path} {owner : Option Nat} {n : SyntaxNode} {pairs : List (Nat × Nat)}
    (hn : d.tree.node? id = some n) (hc : n.content = .map pairs) :
    Apart d ⟨id, .map note keys additional required, path, owner⟩ := by
  constructor
  · simp only [next, hn, hc]
    refine (markRepeated_pairwise h hn hc).filterMap _ ?_
    rintro ⟨k, v, r⟩ ⟨k', v', r'⟩ hne a ha b hb
    obtain ⟨-, shape, -, rfl⟩ := under_eq_some.mp ha
    obtain ⟨-, shape', -, rfl⟩ := under_eq_some.mp hb
    exact hne.2
  · intro c' hc'
    cases mem_next_iff.mp hc' with
    | value hn hc _ _ => exact (SyntaxTree.pair_children hn hc List.mem_append_cons_self).2

theorem next_cases (h : d.tree.Arena) (c : Call) :
    (∃ c', c.next d = [c'] ∧ c.flaws d = []) ∨ c.Apart d := by
  obtain ⟨id, shape, path, owner⟩ := c
  cases hn : d.tree.node? id with
  | none => exact .inr (.of_none (by simp [next, hn]))
  | some n =>
    cases shape with
    | value note allowed implicit => exact .inr (.of_none (by simp [next, hn]))
    | oneOf note alternatives =>
      cases hc : chosen? n alternatives with
      | none => exact .inr (.of_none (by simp [next, hn, hc]))
      | some shape => simp [next, flaws, findings, hn, hc]
    | sequence note item =>
      cases hc : n.content with
      | sequence items => exact .inr (.of_items h hn hc)
      | _ =>
        by_cases hnull : n.isNull
        · exact .inr (.of_none (by simp [next, hn, hc, hnull]))
        · simp [next, flaws, findings, hn, hc, hnull]
    | map note keys additional required =>
      cases hc : n.content with
      | map pairs => exact .inr (.of_pairs h hn hc)
      | _ => exact .inr (.of_none (by simp [next, hn, hc]))

theorem home_within (h : d.tree.Arena) {c : Call} {site : Site}
    (hs : site ∈ ((c.all d).flatMap (flaws d)).map (·.1)) :
    ∃ id, site.home d.tree = some id ∧ d.tree.Within c.id id := by
  obtain ⟨⟨site, x⟩, hf, rfl⟩ := List.mem_map.mp hs
  obtain ⟨c', hc', hf⟩ := List.mem_flatMap.mp hf
  exact ⟨c'.id, home_of_flaw h (mem_flaws.mp hf), within_of_mem_all hc'⟩

/-- No two flaws behind a call are at one site: those of the call itself are at its node, and those
of the calls that it makes are apart, as the subtrees are. -/
theorem nodup_all_flaws (h : d.tree.Arena) (c : Call) :
    (((c.all d).flatMap (flaws d)).map (·.1)).Nodup := by
  induction c using all.induct d with
  | case1 c ih =>
    rw [all_eq, List.flatMap_cons, List.flatMap_assoc, List.map_append]
    obtain ⟨c', hnext, hnone⟩ | ⟨hne, hchild⟩ := c.next_cases h
    · rw [hnext, hnone]
      simpa using ih ⟨c', by simp [hnext]⟩
    · rw [List.nodup_append, List.map_flatMap, List.nodup_flatMap]
      refine ⟨nodup_flaws h c, ⟨fun c' hc' => ih ⟨c', hc'⟩, ?_⟩, ?_⟩
      -- a site of two of the calls would be at a node inside of two children
      · refine hne.imp_of_mem fun {a b} ha hb hab site hsa hsb => ?_
        obtain ⟨id, hid, hwa⟩ := home_within h hsa
        obtain ⟨id', hid', hwb⟩ := home_within h hsb
        obtain rfl := Option.some.inj (hid.symm.trans hid')
        exact hab (h.within_sibling_unique (hchild a ha) (hchild b hb) hwa hwb)
      -- a site of the call itself would put its node inside of its own child
      · rintro site hs site' hs' rfl
        obtain ⟨⟨site, x⟩, hf, rfl⟩ := List.mem_map.mp hs
        obtain ⟨c', hc', hs'⟩ := List.mem_flatMap.mp hs'
        obtain ⟨id, hid, hw⟩ := home_within h hs'
        obtain rfl := Option.some.inj (hid.symm.trans (home_of_flaw h (mem_flaws.mp hf)))
        exact h.not_within_parent (hchild c' hc') hw

end Call

/-- The report of a walk, less what it says about texts, is the list of the flaws at the calls that
it reaches. Every flaw is there once: no two of them are at one site. The entries of the required
names are counted by their positions. -/
theorem structural_exactly_once (h : d.tree.Arena) (schema : Shape) :
    ∃ report : List (Site × Diagnostic),
      ((document d schema).diagnostics.filter (isStructural ·.message)).Perm (report.map (·.2)) ∧
      (report.map (·.1)).Nodup ∧
      ∀ site x, (site, x) ∈ report ↔ ∃ c, Reached d schema c ∧ Flaw d c site x := by
  cases hr : d.tree.root with
  | none =>
    refine ⟨[], by simp [document, hr, Report.empty], List.nodup_nil, fun site x => ?_⟩
    have hnot (c : Call) : ¬Reached d schema c := by
      intro hc
      induction hc with
      | root hid => simp [hr] at hid
      | step _ _ ih => exact ih
    simp [hnot]
  | some root =>
    refine ⟨(Call.all d ⟨root, schema, [], none⟩).flatMap (Call.flaws d), ?_,
      Call.nodup_all_flaws h _, fun site x => ?_⟩
    · have hdoc : document d schema = Call.report d ⟨root, schema, [], none⟩ := by
        simp [document, hr, Call.report]
      rw [hdoc]
      exact Call.structural_perm _
    · simp only [List.mem_flatMap, Call.mem_flaws, reached_iff_mem_all hr]

def tangled : SyntaxTree where
  nodes := #[
    ⟨.map [(1, 2), (3, 4), (9, 10)], ⟨0, 33⟩, none⟩,
    ⟨.scalar .plain "on" "on", ⟨0, 2⟩, some 0⟩,
    ⟨.scalar .plain "push" "push", ⟨4, 8⟩, some 0⟩,
    ⟨.scalar .plain "jobs" "jobs", ⟨9, 13⟩, some 0⟩,
    ⟨.sequence [5, 6], ⟨15, 26⟩, some 0⟩,
    ⟨.scalar .plain "a" "a", ⟨16, 17⟩, some 4⟩,
    ⟨.map [(7, 8)], ⟨19, 25⟩, some 4⟩,
    ⟨.scalar .plain "x" "x", ⟨20, 21⟩, some 6⟩,
    ⟨.scalar .plain "1" "1", ⟨23, 24⟩, some 6⟩,
    ⟨.scalar .plain "on" "on", ⟨27, 29⟩, some 0⟩,
    ⟨.scalar .plain "2" "2", ⟨31, 32⟩, some 0⟩]
  root := some 0

def tangledShape : Shape :=
  .map .none
    [("on", .choice [.list .scalar, .openMap .scalar]),
      ("jobs", .list (.map .none [] none ["y"]))] none ["name"]

theorem structural_exactly_once_tangled :
    tangled.Arena ∧
    (document ⟨tangled, .null, fun _ _ _ => none⟩ tangledShape).diagnostics =
      [.error "Expected a mapping" ⟨16, 17⟩, .error "Key 'x' is not allowed" ⟨20, 21⟩,
        .error "Missing required key 'y'" ⟨20, 21⟩, .error "Key 'on' is already defined" ⟨27, 29⟩,
        .error "Missing required key 'name'" ⟨0, 2⟩] ∧
    ∃ report : List (Site × Diagnostic),
      ((document ⟨tangled, .null, fun _ _ _ => none⟩ tangledShape).diagnostics.filter
        (isStructural ·.message)).Perm (report.map (·.2)) ∧
      (report.map (·.1)).Nodup ∧
      ∀ site x, (site, x) ∈ report ↔
        ∃ c, Reached ⟨tangled, .null, fun _ _ _ => none⟩ tangledShape c ∧
          Flaw ⟨tangled, .null, fun _ _ _ => none⟩ c site x :=
  ⟨by decide, by decide, structural_exactly_once (by decide) tangledShape⟩

def onePair : SyntaxTree where
  nodes := #[⟨.map [(1, 2)], ⟨0, 5⟩, none⟩, ⟨.scalar .plain "b" "b", ⟨0, 1⟩, some 0⟩,
    ⟨.scalar .plain "1" "1", ⟨3, 4⟩, some 0⟩]
  root := some 0

/-- A name that is required twice and missing is reported twice, at one place. -/
theorem missing_reported_per_entry :
    onePair.Arena ∧
    (document ⟨onePair, .null, fun _ _ _ => none⟩
      (.map .none [("b", .scalar)] none ["a", "a"])).diagnostics =
      [.error "Missing required key 'a'" ⟨0, 1⟩, .error "Missing required key 'a'" ⟨0, 1⟩] :=
  ⟨by decide, by decide⟩

end WorkflowLint.Check
