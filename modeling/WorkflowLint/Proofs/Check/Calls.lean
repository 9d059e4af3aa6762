import WorkflowLint.Check.Walk
import Mathlib.Data.List.Perm.Basic

/-! The calls that a walk makes. A call compares a node with a shape; the calls behind it are read
off the two, and what the walk reports is what its calls report, each of them once. -/
namespace WorkflowLint.Check
variable {d : Document} {schema : Shape}

/-! Alternatives -/

def chosen? (n : SyntaxNode) (alternatives : List Shape) : Option Shape :=
  (alternatives.find? (·.fits n)).or
    ((if n.isScalar then alternatives.find? (·.isSequence) else none).or
      (if n.isNull then alternatives.head? else none))

theorem isScalar_of_isNull {n : SyntaxNode} (h : n.isNull = true) : n.isScalar = true := by
  unfold SyntaxNode.isNull at h
  unfold SyntaxNode.isScalar
  split at h <;> simp_all

theorem getElem?_choose? {n : SyntaxNode} {alternatives : List Shape} :
    (choose? n alternatives).bind (alternatives[·]?) = chosen? n alternatives := by
  have hfind (p : Shape → Bool) := @List.find?_eq_bind_findIdx?_getElem? _ alternatives p
  unfold choose? chosen?
  rw [hfind, hfind]
  cases hfit : alternatives.findIdx? (·.fits n) with
  | some i =>
    have hi := (List.findIdx?_eq_some_iff_getElem.mp hfit).1
    simp [hi]
  | none =>
    by_cases hs : n.isScalar
    · cases hseq : alternatives.findIdx? (·.isSequence) with
      | some i =>
        have hi := (List.findIdx?_eq_some_iff_getElem.mp hseq).1
        simp [hs, hi]
      | none =>
        cases alternatives <;> by_cases hn : n.isNull <;> simp [hs, hn]
    · have hn : n.isNull = false := by
        by_contra h
        exact hs (isScalar_of_isNull (by simpa using h))
      simp [hs, hn]

theorem choose?_lt {n : SyntaxNode} {alternatives : List Shape} {i : Nat}
    (h : choose? n alternatives = some i) : i < alternatives.length := by
  unfold choose? at h
  obtain hfit | ⟨-, h⟩ := Option.or_eq_some_iff.mp h
  · exact (List.findIdx?_eq_some_iff_getElem.mp hfit).1
  · split at h
    · obtain hseq | ⟨-, h⟩ := Option.or_eq_some_iff.mp h
      · exact (List.findIdx?_eq_some_iff_getElem.mp hseq).1
      · cases alternatives with
        | nil => simp at h
        | cons shape rest =>
          split at h
          · cases h
            simp
          · cases h
    · cases h

theorem chosen?_mem {n : SyntaxNode} {alternatives : List Shape} {shape : Shape}
    (h : chosen? n alternatives = some shape) : shape ∈ alternatives := by
  rw [← getElem?_choose?] at h
  obtain ⟨i, -, hi⟩ := Option.bind_eq_some_iff.mp h
  exact List.mem_of_getElem? hi

theorem visitNth_eq (shapes : List Shape) (i id : Nat) (path : Path) (owner : Option Nat) :
    visitNth d shapes i id path owner =
      (shapes[i]?.map fun shape => visit d shape id path owner).getD .empty := by
  induction shapes generalizing i with
  | nil => simp [visitNth]
  | cons shape rest ih =>
    cases i with
    | zero => simp [visitNth]
    | succ i => simpa [visitNth] using ih i

/-! Keys -/

theorem mem_markRepeated {tree : SyntaxTree} {seen : List String} {pairs : List (Nat × Nat)}
    {k v : Nat} {isRepeated : Bool} :
    (k, v, isRepeated) ∈ markRepeated tree seen pairs ↔
      ∃ before after, pairs = before ++ (k, v) :: after ∧
        (isRepeated = true ↔
          tree.valueOf k ∈ seen ∨ ∃ p ∈ before, tree.valueOf p.1 = tree.valueOf k) := by
  induction pairs generalizing seen with
  | nil => simp [markRepeated]
  | cons p rest ih =>
    obtain ⟨k', v'⟩ := p
    -- the key counts among those given, or as the first one of those before
    have hmove (before : List (Nat × Nat)) :
        (tree.valueOf k ∈ tree.valueOf k' :: seen ∨
          ∃ p ∈ before, tree.valueOf p.1 = tree.valueOf k) ↔
        (tree.valueOf k ∈ seen ∨
          ∃ p ∈ (k', v') :: before, tree.valueOf p.1 = tree.valueOf k) := by
      rw [List.mem_cons, or_assoc, or_left_comm]
      simp [eq_comm (a := tree.valueOf k)]
    rw [markRepeated, List.mem_cons, ih]
    constructor
    · rintro (heq | ⟨before, after, rfl, hiff⟩)
      · obtain ⟨rfl, rfl, rfl⟩ : k = k' ∧ v = v' ∧ isRepeated = seen.contains (tree.valueOf k') := by
          simpa using heq
        exact ⟨[], rest, rfl, by simp⟩
      · exact ⟨(k', v') :: before, after, rfl, hiff.trans (hmove before)⟩
    · rintro ⟨before, after, heq, hiff⟩
      cases before with
      | nil =>
        obtain ⟨⟨rfl, rfl⟩, rfl⟩ : (k' = k ∧ v' = v) ∧ rest = after := by simpa using heq
        refine .inl ?_
        have hb : isRepeated = seen.contains (tree.valueOf k') := by
          rw [Bool.eq_iff_iff, hiff]
          simp
        rw [hb]
      | cons q before =>
        obtain ⟨rfl, rfl⟩ : (k', v') = q ∧ rest = before ++ (k, v) :: after := by simpa using heq
        exact .inr ⟨before, after, rfl, hiff.trans (hmove before).symm⟩

theorem markRepeated_pairs (tree : SyntaxTree) (seen : List String) (pairs : List (Nat × Nat)) :
    (markRepeated tree seen pairs).map (fun p => (p.1, p.2.1)) = pairs := by
  induction pairs generalizing seen with
  | nil => rfl
  | cons p rest ih => simp [markRepeated, ih]

theorem visitUnder_eq (keys : List (String × Shape)) (name : String) (k v : Nat) (path : Path) :
    visitUnder d keys name k v path =
      ((keys.find? (·.1 == name)).map fun e =>
        .ofShape k e.2 ++ visit d e.2 v (path.withKey name) (some k)).getD .empty := by
  induction keys with
  | nil => simp [visitUnder]
  | cons e rest ih =>
    obtain ⟨key, shape⟩ := e
    by_cases h : key == name <;> simp [visitUnder, h, ih]

theorem key?_map_mem {note : Shape.Note} {keys : List (String × Shape)} {additional : Option Shape}
    {required : List String} {name : String} {shape : Shape}
    (h : (Shape.map note keys additional required).key? name = some shape) :
    (∃ e ∈ keys, e.2 = shape) ∨ additional = some shape := by
  obtain h | ⟨-, h⟩ := Option.or_eq_some_iff.mp h
  · obtain ⟨e, he, rfl⟩ := Option.map_eq_some_iff.mp h
    exact .inl ⟨e, List.mem_of_find?_eq_some he, rfl⟩
  · exact .inr h

/-! Calls -/

/-- What a finding is about. -/
inductive Site where
  | key (k : Nat)
  | required (id i : Nat)
  | node (id : Nat)
  | text (id : Nat)
deriving DecidableEq, Repr

/-- A node that is compared with a shape, at a path and under a key. -/
structure Call where
  id : Nat
  shape : Shape
  path : Path
  owner : Option Nat

namespace Call

def report (d : Document) (c : Call) : Report := visit d c.shape c.id c.path c.owner

/-- The call for the value of a pair. That of a key that came before is not looked at. -/
def under (d : Document) (c : Call) : Nat × Nat × Bool → Option Call
  | (k, v, isRepeated) =>
    if isRepeated then none
    else (c.shape.key? (d.tree.valueOf k)).map fun shape =>
      ⟨v, shape, c.path.withKey (d.tree.valueOf k), some k⟩

def next (d : Document) (c : Call) : List Call :=
  match d.tree.node? c.id with
  | none => []
  | some n =>
    match c.shape with
    | .oneOf _ alternatives => ((chosen? n alternatives).map fun shape => { c with shape }).toList
    | .value .. => []
    | .sequence _ item =>
      match n.content with
      | .sequence items => items.zipIdx.map fun (x, i) => ⟨x, item, c.path.withIndex i, none⟩
      | _ => if n.isNull then [] else [{ c with shape := item }]
    | .map .. =>
      match n.content with
      | .map pairs => (markRepeated d.tree [] pairs).filterMap (c.under d)
      | _ => []

def keyFinding? (d : Document) (c : Call) : Nat × Nat × Bool → Option (Site × Diagnostic)
  | (k, _, isRepeated) =>
    let name := d.tree.valueOf k
    if isRepeated then
      some (.key k, .error ("Key '" ++ name ++ "' is already defined") (d.tree.spanOf k))
    else if (c.shape.key? name).isNone then
      some (.key k, .error ("Key '" ++ name ++ "' is not allowed") (d.tree.spanOf k))
    else none

def missingPlace (d : Document) (c : Call) (n : SyntaxNode) : Span :=
  ((c.owner.or (n.pairs.head?.map (·.1))).map d.tree.spanOf).getD n.span

def missingFindings (d : Document) (c : Call) (n : SyntaxNode) (required : List String) :
    List (Site × Diagnostic) :=
  (required.zipIdx.filter fun (name, _) =>
      !(n.pairs.map fun (k, _) => d.tree.valueOf k).contains name).map fun (name, i) =>
    (.required c.id i, .error ("Missing required key '" ++ name ++ "'") (c.missingPlace d n))

def findings (d : Document) (c : Call) : List (Site × Diagnostic) :=
  match d.tree.node? c.id with
  | none => []
  | some n =>
    match c.shape with
    | .oneOf _ alternatives =>
      if (chosen? n alternatives).isNone then
        [(.node c.id, .error ("Expected " ++ expected alternatives) n.span)]
      else []
    | .value _ _ implicit =>
      (scalar d c.shape implicit c.path n).map
        (Prod.mk (if n.isScalar then .text c.id else .node c.id))
    | .sequence .. => []
    | .map _ _ _ required =>
      match n.content with
      | .map pairs =>
        (markRepeated d.tree [] pairs).filterMap (c.keyFinding? d) ++
          c.missingFindings d n required
      | _ => if n.isNull then [] else [(.node c.id, .error "Expected a mapping" n.span)]

theorem missingFindings_diagnostics (c : Call) (n : SyntaxNode) (required : List String) :
    (c.missingFindings d n required).map (·.2) = missing d.tree n c.owner required := by
  have hnames : (required.zipIdx.filter fun p =>
      !(n.pairs.map fun p => d.tree.valueOf p.1).contains p.1).map (·.1) =
      required.filter fun name => !(n.pairs.map fun p => d.tree.valueOf p.1).contains name := by
    rw [← List.zipIdx_map_fst 0 required, List.filter_map]
    simp [Function.comp_def]
  unfold missingFindings missingPlace missing
  simp only [List.map_map, ← hnames]
  cases c.owner.or (n.pairs.head?.map (·.1)) <;> rfl

theorem under_eq_some {c c' : Call} {k v : Nat} {isRepeated : Bool} :
    c.under d (k, v, isRepeated) = some c' ↔ isRepeated = false ∧
      ∃ shape, c.shape.key? (d.tree.valueOf k) = some shape ∧
        c' = ⟨v, shape, c.path.withKey (d.tree.valueOf k), some k⟩ := by
  cases isRepeated with
  | true => simp [under]
  | false => simp [under, @eq_comm _ c']

/-- The rules by which one call makes another. -/
inductive Step (d : Document) : Call → Call → Prop
  | choice {id note alternatives path owner n shape} :
      d.tree.node? id = some n → chosen? n alternatives = some shape →
      Step d ⟨id, .oneOf note alternatives, path, owner⟩ ⟨id, shape, path, owner⟩
  | item {id note item path owner n items i x} :
      d.tree.node? id = some n → n.content = .sequence items → items[i]? = some x →
      Step d ⟨id, .sequence note item, path, owner⟩ ⟨x, item, path.withIndex i, none⟩
  | lone {id note item path owner n} :
      d.tree.node? id = some n → n.isSequence = false → n.isNull = false →
      Step d ⟨id, .sequence note item, path, owner⟩ ⟨id, item, path, owner⟩
  | value {id note keys additional required path owner n before k v after shape} :
      d.tree.node? id = some n → n.content = .map (before ++ (k, v) :: after) →
      (∀ p ∈ before, d.tree.valueOf p.1 ≠ d.tree.valueOf k) →
      (Shape.map note keys additional required).key? (d.tree.valueOf k) = some shape →
      Step d ⟨id, .map note keys additional required, path, owner⟩
        ⟨v, shape, path.withKey (d.tree.valueOf k), some k⟩

theorem Step.of_mem_next {c c' : Call} (h : c' ∈ c.next d) : Step d c c' := by
  obtain ⟨id, shape, path, owner⟩ := c
  unfold next at h
  cases hn : d.tree.node? id with
  | none => simp [hn] at h
  | some n =>
    cases shape with
    | value note allowed implicit => simp [hn] at h
    | oneOf note alternatives =>
      simp only [hn, Option.mem_toList, Option.map_eq_some_iff] at h
      obtain ⟨shape, hs, rfl⟩ := h
      exact .choice hn hs
    | sequence note item =>
      simp only [hn] at h
      cases hc : n.content with
      | sequence items =>
        simp only [hc] at h
        obtain ⟨⟨x, i⟩, hx, rfl⟩ := List.mem_map.mp h
        exact .item hn hc (List.mk_mem_zipIdx_iff_getElem?.mp hx)
      | _ =>
        have hseq : n.isSequence = false := by simp [SyntaxNode.isSequence, hc]
        simp only [hc] at h
        split at h
        · cases h
        · next hnull =>
          rw [List.mem_singleton.mp h]
          exact .lone hn hseq (by simpa using hnull)
    | map note keys additional required =>
      simp only [hn] at h
      split at h
      · next pairs hc =>
        obtain ⟨⟨k, v, isRepeated⟩, hp, hu⟩ := List.mem_filterMap.mp h
        obtain ⟨rfl, shape, hs, rfl⟩ := under_eq_some.mp hu
        obtain ⟨before, after, rfl, hfirst⟩ := mem_markRepeated.mp hp
        exact .value hn hc (by simpa using hfirst) hs
      · cases h

theorem Step.mem_next {c c' : Call} (h : Step d c c') : c' ∈ c.next d := by
  cases h with
  | choice hn hs => simp [next, hn, hs]
  | @item id note item path owner n items i x hn hc hx =>
    simp only [next, hn, hc]
    exact List.mem_map.mpr ⟨(x, i), List.mk_mem_zipIdx_iff_getElem?.mpr hx, rfl⟩
  | @lone id note item path owner n hn hseq hnull =>
    cases hc : n.content with
    | sequence items => simp [SyntaxNode.isSequence, hc] at hseq
    | _ => simp [next, hn, hc, hnull]
  | @value id note keys additional required path owner n before k v after shape hn hc hfirst hs =>
    simp only [next, hn, hc]
    have hp : (k, v, false) ∈ markRepeated d.tree [] (before ++ (k, v) :: after) :=
      mem_markRepeated.mpr ⟨before, after, rfl, by simpa using hfirst⟩
    exact List.mem_filterMap.mpr ⟨_, hp, under_eq_some.mpr ⟨rfl, shape, hs, rfl⟩⟩

theorem mem_next_iff {c c' : Call} : c' ∈ c.next d ↔ Step d c c' :=
  ⟨Step.of_mem_next, Step.mem_next⟩

theorem Step.sizeOf_lt {c c' : Call} (h : Step d c c') : sizeOf c'.shape < sizeOf c.shape := by
  cases h with
  | choice _ hs =>
    have hlt := List.sizeOf_lt_of_mem (chosen?_mem hs)
    simp only [Shape.oneOf.sizeOf_spec]
    omega
  | item | lone =>
    simp only [Shape.sequence.sizeOf_spec]
    omega
  | value _ _ _ hs =>
    obtain ⟨⟨key, shape⟩, he, rfl⟩ | rfl := key?_map_mem hs
    · have hlt := List.sizeOf_lt_of_mem he
      simp only [Shape.map.sizeOf_spec, Prod.mk.sizeOf_spec] at hlt ⊢
      omega
    · simp only [Shape.map.sizeOf_spec, Option.some.sizeOf_spec]
      omega

def all (d : Document) (c : Call) : List Call :=
  c :: (c.next d).attach.flatMap fun c' => all d c'.1
termination_by sizeOf c.shape
decreasing_by exact (mem_next_iff.mp c'.2).sizeOf_lt

theorem all_eq (c : Call) : c.all d = c :: (c.next d).flatMap (all d) := by
  rw [all]
  congr 1
  exact List.flatMap_subtype (fun _ _ => rfl) |>.trans (by simp)

/-! What a walk reports -/

@[simp] theorem diagnostics_append (a b : Report) :
    (a ++ b).diagnostics = a.diagnostics ++ b.diagnostics := rfl

@[simp] theorem diagnostics_join (rs : List Report) :
    (Report.join rs).diagnostics = rs.flatMap (·.diagnostics) := rfl

@[simp] theorem diagnostics_ofShape (id : Nat) (shape : Shape) :
    (Report.ofShape id shape).diagnostics = [] := rfl

@[simp] theorem diagnostics_ofError (message : String) (span : Span) :
    (Report.ofError message span).diagnostics = [.error message span] := rfl

@[simp] theorem diagnostics_ofErrors (ds : List Diagnostic) :
    (Report.ofErrors ds).diagnostics = ds := rfl

@[simp] theorem diagnostics_empty : Report.empty.diagnostics = [] := rfl

@[simp] theorem errors_append_join (r : Report) : Report.ofErrors [] ++ Report.join [r] = r := by
  change Report.mk ([] ++ [r].flatMap (·.diagnostics)) ([] ++ [r].flatMap (·.shapes)) = r
  simp

theorem pair_report {c : Call} {note : Shape.Note} {keys : List (String × Shape)}
    {additional : Option Shape} {required : List String}
    (hs : c.shape = .map note keys additional required) (k v : Nat) (isRepeated : Bool) :
    (if isRepeated then
        Report.ofError ("Key '" ++ d.tree.valueOf k ++ "' is already defined") (d.tree.spanOf k)
      else if keys.any (·.1 == d.tree.valueOf k) then
        visitUnder d keys (d.tree.valueOf k) k v c.path
      else if additional.isSome then visitOther d additional (d.tree.valueOf k) k v c.path
      else .ofError ("Key '" ++ d.tree.valueOf k ++ "' is not allowed") (d.tree.spanOf k)) =
      .ofErrors ((c.keyFinding? d (k, v, isRepeated)).toList.map (·.2)) ++
        .join ((c.under d (k, v, isRepeated)).toList.map fun c' =>
          .ofShape k c'.shape ++ c'.report d) := by
  cases isRepeated with
  | true => rfl
  | false =>
    cases hf : keys.find? (·.1 == d.tree.valueOf k) with
    | some e =>
      have hany : keys.any (·.1 == d.tree.valueOf k) = true := by
        rw [List.any_eq_true]
        exact ⟨e, List.mem_of_find?_eq_some hf, by simpa using List.find?_some hf⟩
      simp [hany, visitUnder_eq, hf, keyFinding?, under, hs, Shape.key?, report]
    | none =>
      have hany : keys.any (·.1 == d.tree.valueOf k) = false := by
        rw [List.any_eq_false]
        exact List.find?_eq_none.mp hf
      cases additional with
      | some shape =>
        simp [hany, visitOther, hf, keyFinding?, under, hs, Shape.key?, report]
      | none =>
        have hkey : c.shape.key? (d.tree.valueOf k) = none := by simp [hs, Shape.key?, hf]
        simp only [hany, keyFinding?, under, hkey]
        rfl

theorem flatMap_options_perm {α β γ δ : Type} (l : List α) (f : α → Option β) (g : α → Option γ)
    (p : β → δ) (q : γ → List δ) :
    (l.flatMap fun x => (f x).toList.map p ++ (g x).toList.flatMap q).Perm
      ((l.filterMap f).map p ++ (l.filterMap g).flatMap q) := by
  rw [List.filterMap_eq_flatMap_toList, List.filterMap_eq_flatMap_toList, List.map_flatMap,
    List.flatMap_assoc]
  exact (List.flatMap_append_perm l _ _).symm

/-- A call reports its own findings and those of the calls that it makes. Under a mapping the two
are mixed, as each value is looked at behind its key. -/
theorem report_perm (c : Call) : (c.report d).diagnostics.Perm
    ((c.findings d).map (·.2) ++ (c.next d).flatMap fun c' => (c'.report d).diagnostics) := by
  obtain ⟨id, shape, path, owner⟩ := c
  cases hn : d.tree.node? id with
  | none =>
    rw [report, visit.eq_def, findings, next]
    simp [hn]
  | some n =>
    cases shape with
    | value note allowed implicit =>
      rw [report, visit.eq_def, findings, next]
      simp [hn, Function.comp_def]
    | oneOf note alternatives =>
      have hc := @getElem?_choose? n alternatives
      rw [report, visit.eq_def, findings, next]
      cases hi : choose? n alternatives with
      | none =>
        rw [hi] at hc
        simp [hn, hi, ← hc]
      | some i =>
        rw [hi, Option.bind_some, List.getElem?_eq_getElem (choose?_lt hi)] at hc
        simp [hn, hi, ← hc, visitNth_eq, choose?_lt hi, report]
    | sequence note item =>
      rw [report, visit.eq_def, findings, next]
      simp only [hn]
      cases hc : n.content with
      | sequence items => simp [List.flatMap_map, report]
      | _ => by_cases hnull : n.isNull <;> simp [hnull, report]
    | map note keys additional required =>
      rw [report, visit.eq_def, findings, next]
      simp only [hn]
      cases hc : n.content with
      | map pairs =>
        have hpair := @pair_report d ⟨id, .map note keys additional required, path, owner⟩
          note keys additional required rfl
        simp only [hpair, diagnostics_append, diagnostics_ofShape, diagnostics_join,
          diagnostics_ofErrors, List.nil_append, List.flatMap_map]
        refine ((flatMap_options_perm _ _ _ _ _).append_right _).trans ?_
        rw [List.map_append, missingFindings_diagnostics, List.append_assoc, List.append_assoc]
        exact List.perm_append_comm.append_left _
      | _ => by_cases hnull : n.isNull <;> simp [hnull]

theorem report_perm_all (c : Call) :
    (c.report d).diagnostics.Perm (((c.all d).flatMap (findings d)).map (·.2)) := by
  induction c using all.induct d with
  | case1 c ih =>
    rw [all_eq, List.flatMap_cons, List.flatMap_assoc, List.map_append, List.map_flatMap]
    refine c.report_perm.trans (List.Perm.append_left _ ?_)
    exact List.Perm.flatMap_left _ fun c' hc' => ih ⟨c', hc'⟩

/-! Which calls there are -/

theorem mem_all_self (c : Call) : c ∈ c.all d := by
  rw [all_eq]
  exact List.mem_cons_self

theorem mem_all_step {a b c : Call} (hb : b ∈ a.all d) (hc : Step d b c) : c ∈ a.all d := by
  induction a using all.induct d with
  | case1 a ih =>
    rw [all_eq, List.mem_cons, List.mem_flatMap] at hb ⊢
    obtain rfl | ⟨a', ha', hb⟩ := hb
    · exact .inr ⟨c, hc.mem_next, mem_all_self c⟩
    · exact .inr ⟨a', ha', ih ⟨a', ha'⟩ hb⟩

theorem forall_mem_all {P : Call → Prop} {top : Call} (htop : P top)
    (hstep : ∀ c c', P c → Step d c c' → P c') : ∀ c ∈ top.all d, P c := by
  induction top using all.induct d with
  | case1 top ih =>
    intro c hc
    rw [all_eq, List.mem_cons, List.mem_flatMap] at hc
    obtain rfl | ⟨top', ht, hc⟩ := hc
    · exact htop
    · exact ih ⟨top', ht⟩ (hstep top top' htop (mem_next_iff.mp ht)) c hc

end Call

/-- The calls of the walk through a whole document. -/
inductive Reached (d : Document) (schema : Shape) : Call → Prop
  | root {id : Nat} : d.tree.root = some id → Reached d schema ⟨id, schema, [], none⟩
  | step {c c' : Call} : Reached d schema c → Call.Step d c c' → Reached d schema c'

theorem reached_iff_mem_all {root : Nat} (hr : d.tree.root = some root) {c : Call} :
    Reached d schema c ↔ c ∈ Call.all d ⟨root, schema, [], none⟩ := by
  constructor
  · intro h
    induction h with
    | root hid =>
      obtain rfl := Option.some.inj (hr.symm.trans hid)
      exact Call.mem_all_self _
    | step _ hs ih => exact Call.mem_all_step ih hs
  · exact Call.forall_mem_all (.root hr) (fun _ _ hc hs => hc.step hs) c

end WorkflowLint.Check
