import WorkflowLint.Proofs.Check.Places

/-! Which nodes have a shape. A node that is no key has one if a call was made there, and it is that
of the first such call that is not a choice, or the choice itself if no alternative applies. If
nothing is found, calls were made everywhere. -/
namespace WorkflowLint

namespace SyntaxTree
variable {tree : SyntaxTree}

def IsKey (tree : SyntaxTree) (id : Nat) : Prop := ∃ m, ∃ p ∈ tree.pairsOf m, p.1 = id

def InsideKey (tree : SyntaxTree) (id : Nat) : Prop :=
  ∃ key, tree.IsKey key ∧ tree.Within key id ∧ key ≠ id

theorem key_child {id : Nat} {p : Nat × Nat} (h : p ∈ tree.pairsOf id) :
    p.1 ∈ tree.childrenOf id :=
  List.mem_append_left _ (List.mem_flatMap.mpr ⟨p, h, by simp⟩)

theorem not_isScalar_of_child {id x : Nat} {n : SyntaxNode} (hn : tree.node? id = some n)
    (hx : x ∈ tree.childrenOf id) : n.isScalar = false := by
  cases hc : n.content with
  | scalar => simp [childrenOf, pairsOf, itemsOf, hn, SyntaxNode.pairs, SyntaxNode.items, hc] at hx
  | _ => simp [SyntaxNode.isScalar, hc]

theorem childrenOf_of_sequence {id : Nat} {n : SyntaxNode} {items : List Nat}
    (hn : tree.node? id = some n) (hc : n.content = .sequence items) :
    tree.childrenOf id = items := by
  simp [childrenOf, pairsOf, itemsOf, hn, SyntaxNode.pairs, SyntaxNode.items, hc]

theorem mem_childrenOf_of_map {id : Nat} {n : SyntaxNode} {pairs : List (Nat × Nat)}
    (hn : tree.node? id = some n) (hc : n.content = .map pairs) {x : Nat} :
    x ∈ tree.childrenOf id ↔ ∃ p ∈ pairs, x = p.1 ∨ x = p.2 := by
  simp [childrenOf, pairsOf, itemsOf, hn, SyntaxNode.pairs, SyntaxNode.items, hc]

theorem Arena.of_not_insideKey (h : tree.Arena) {id child : Nat}
    (hc : child ∈ tree.childrenOf id) (hinside : ¬tree.InsideKey child) :
    ¬tree.IsKey id ∧ ¬tree.InsideKey id := by
  have hnot (key : Nat) (hkey : tree.IsKey key) : ¬tree.Within key id := by
    intro hw
    have hne : key ≠ child := by
      rintro rfl
      exact h.not_within_parent hc hw
    exact hinside ⟨key, hkey, hw.child hc, hne⟩
  exact ⟨fun hkey => hnot id hkey .refl, fun ⟨key, hkey, hw, _⟩ => hnot key hkey hw⟩

end SyntaxTree

namespace Check
variable {d : Document} {schema : Shape}

def visits (d : Document) (schema : Shape) : List Call :=
  match d.tree.root with
  | none => []
  | some root => Call.all d ⟨root, schema, [], none⟩

theorem mem_visits {c : Call} : c ∈ visits d schema ↔ Reached d schema c := by
  unfold visits
  split
  next hr =>
    refine iff_of_false (by simp) fun hc => ?_
    induction hc with
    | root hid => simp [hr] at hid
    | step _ _ ih => exact ih
  next root hr => exact (reached_iff_mem_all hr).symm

namespace Call

theorem mem_all_trans {a b c : Call} (hb : b ∈ a.all d) (hc : c ∈ b.all d) : c ∈ a.all d :=
  forall_mem_all (P := (· ∈ a.all d)) hb (fun _ _ => mem_all_step) c hc

theorem Step.mem_all {a b : Call} (hs : Step d a b) : b ∈ a.all d :=
  mem_all_step (mem_all_self a) hs

/-! The first call at a node -/

def isPlain (c : Call) : Bool :=
  match c.shape with
  | .oneOf .. => false
  | _ => true

def isStuck (d : Document) (c : Call) : Bool :=
  match d.tree.node? c.id, c.shape with
  | some n, .oneOf _ alternatives => (chosen? n alternatives).isNone
  | _, _ => false

def settles (d : Document) (id : Nat) (c : Call) : Bool :=
  c.id == id && (c.isPlain || c.isStuck d)

theorem Step.isSome_node (h : d.tree.Arena) {c c' : Call} (hs : Step d c c') :
    (d.tree.node? c'.id).isSome = true := by
  have hchild {id x : Nat} (hx : x ∈ d.tree.childrenOf id) : (d.tree.node? x).isSome = true := by
    simpa [SyntaxTree.node?, SyntaxTree.size] using h.child_lt_size hx
  cases hs with
  | choice hn _ | lone hn _ _ => exact Option.isSome_of_mem hn
  | item hn hc hx => exact hchild (SyntaxTree.item_child hn hc (List.mem_of_getElem? hx))
  | value hn hc _ _ => exact hchild (SyntaxTree.pair_children hn hc List.mem_append_cons_self).2

theorem filter_flatMap_options {α β : Type} {l : List α} {f : α → Option β}
    {p : α → β → Nat × Shape} {q : β → List (Nat × Shape)} {id : Nat}
    (h : ∀ x ∈ l, ∀ y, (p x y).1 ≠ id) :
    (l.flatMap fun x => (f x).toList.flatMap fun y => p x y :: q y).filter (·.1 == id) =
      (l.filterMap f).flatMap fun y => (q y).filter (·.1 == id) := by
  rw [List.filterMap_eq_flatMap_toList, List.flatMap_assoc, List.filter_flatMap]
  refine List.flatMap_congr fun x hx => ?_
  cases f x with
  | none => rfl
  | some y => simp [h x hx y]

theorem filter_own (a id : Nat) (shape : Shape) (rest : List (Nat × Shape)) :
    ((a, shape) :: rest).filter (·.1 == id) =
      (if a = id then [(id, shape)] else []) ++ rest.filter (·.1 == id) := by
  by_cases h : a = id <;> simp [h]

theorem shapes_filter {c : Call} (hnode : (d.tree.node? c.id).isSome = true) {id : Nat}
    (hkey : ¬d.tree.IsKey id) : (c.report d).shapes.filter (·.1 == id) =
      (if c.settles d id then [(id, c.shape)] else []) ++
        (c.next d).flatMap fun c' => (c'.report d).shapes.filter (·.1 == id) := by
  obtain ⟨n, hn⟩ := Option.isSome_iff_exists.mp hnode
  obtain ⟨id', shape, path, owner⟩ := c
  change d.tree.node? id' = some n at hn
  rw [report, visit.eq_def, next]
  simp only [hn, settles, isStuck]
  cases shape with
  | value note allowed implicit => simp [isPlain, filter_own]
  | oneOf note alternatives =>
    have hc := @getElem?_choose? n alternatives
    cases hi : choose? n alternatives with
    | none =>
      rw [hi] at hc
      simp [hi, ← hc, isPlain, filter_own]
    | some i =>
      rw [hi, Option.bind_some, List.getElem?_eq_getElem (choose?_lt hi)] at hc
      simp [hi, ← hc, visitNth_eq, choose?_lt hi, report, isPlain]
  | sequence note item =>
    cases hc : n.content with
    | sequence items =>
      simp [report, isPlain, filter_own, List.filter_flatMap, List.flatMap_map]
    | _ => by_cases hnull : n.isNull <;> simp [hnull, report, isPlain, filter_own]
  | map note keys additional required =>
    cases hc : n.content with
    | map pairs =>
      have hpair := @pair_report d ⟨id', .map note keys additional required, path, owner⟩
        note keys additional required rfl
      have hkeys (x : Nat × Nat × Bool) (hx : x ∈ markRepeated d.tree [] pairs) (c' : Call) :
          (x.1, c'.shape).1 ≠ id := by
        obtain ⟨k, v, isRepeated⟩ := x
        obtain ⟨before, after, rfl, -⟩ := mem_markRepeated.mp hx
        rintro rfl
        exact hkey ⟨id', (k, v), by simp [SyntaxTree.pairsOf_eq hn hc], rfl⟩
      simp only [hpair, shapes_append, shapes_ofShape, shapes_join, shapes_ofErrors,
        List.flatMap_map, List.nil_append, List.append_nil, List.singleton_append, filter_own,
        filter_flatMap_options hkeys]
      simp [isPlain, report]
    | _ => by_cases hnull : n.isNull <;> simp [hnull, isPlain, filter_own]

theorem shapes_filter_all (h : d.tree.Arena) {c : Call}
    (hnode : (d.tree.node? c.id).isSome = true) {id : Nat} (hkey : ¬d.tree.IsKey id) :
    (c.report d).shapes.filter (·.1 == id) =
      ((c.all d).filter (settles d id)).map fun b => (id, b.shape) := by
  induction c using all.induct d with
  | case1 c ih =>
    rw [shapes_filter hnode hkey, all_eq, List.filter_cons, List.filter_flatMap]
    have hnext : (c.next d).flatMap (fun c' => (c'.report d).shapes.filter (·.1 == id)) =
        (c.next d).flatMap fun c' =>
          ((c'.all d).filter (settles d id)).map fun b => (id, b.shape) :=
      List.flatMap_congr fun c' hc' => ih ⟨c', hc'⟩ ((mem_next_iff.mp hc').isSome_node h)
    rw [hnext, ← List.map_flatMap]
    split <;> simp

theorem next_of_isStuck {c : Call} (h : c.isStuck d = true) : c.next d = [] := by
  obtain ⟨id, shape, path, owner⟩ := c
  unfold isStuck at h
  split at h
  next n note alternatives hn hs =>
    obtain rfl : shape = .oneOf note alternatives := hs
    have hn : d.tree.node? id = some n := hn
    simp [next, hn, Option.isNone_iff_eq_none.mp h]
  next => cases h

theorem pairwise_all (h : d.tree.Arena) (c : Call) :
    (c.all d).Pairwise fun a b => a.id = b.id → a.isStuck d = false := by
  induction c using all.induct d with
  | case1 c ih =>
    rw [all_eq, List.pairwise_cons]
    constructor
    · intro b hb _
      cases hstuck : c.isStuck d with
      | false => rfl
      | true =>
        rw [next_of_isStuck hstuck] at hb
        cases hb
    · obtain ⟨c', hnext, -⟩ | ⟨hne, hchild⟩ := c.next_cases h
      · rw [hnext, List.flatMap_singleton]
        exact ih ⟨c', by simp [hnext]⟩
      · rw [List.pairwise_flatMap]
        refine ⟨fun c' hc' => ih ⟨c', hc'⟩, hne.imp_of_mem ?_⟩
        intro a b ha hb hab x hx y hy hid
        refine absurd (h.within_sibling_unique (hchild a ha) (hchild b hb)
          (within_of_mem_all hx) ?_) hab
        exact hid ▸ within_of_mem_all hy

theorem find?_or {α : Type} {p q : α → Bool} {l : List α}
    (h : l.Pairwise fun a b => q a = true → p b = false) :
    l.find? (fun a => p a || q a) = (l.find? p).or (l.find? q) := by
  induction l with
  | nil => rfl
  | cons a l ih =>
    obtain ⟨hhead, htail⟩ := List.pairwise_cons.mp h
    cases hp : p a with
    | true => simp [List.find?_cons, hp]
    | false =>
      cases hq : q a with
      | true =>
        have hnone : l.find? p = none := List.find?_eq_none.mpr fun b hb => by simp [hhead b hb hq]
        simp [hp, hq, hnone]
      | false => simpa [List.find?_cons, hp, hq] using ih htail

/-- A choice goes over to its alternative, at the same node, so that some call puts down a shape. -/
theorem exists_settles {c : Call} (hnode : (d.tree.node? c.id).isSome = true) :
    ∃ b ∈ c.all d, b.settles d c.id = true := by
  induction c using all.induct d with
  | case1 c ih =>
    obtain ⟨id, shape, path, owner⟩ := c
    cases shape with
    | oneOf note alternatives =>
      obtain ⟨n, hn⟩ := Option.isSome_iff_exists.mp hnode
      cases hs : chosen? n alternatives with
      | none =>
        refine ⟨_, mem_all_self _, ?_⟩
        simp [settles, isStuck, hn, hs]
      | some shape =>
        have hstep : Step d ⟨id, .oneOf note alternatives, path, owner⟩ ⟨id, shape, path, owner⟩ :=
          .choice hn hs
        obtain ⟨b, hb, hsettles⟩ := ih ⟨_, hstep.mem_next⟩ hnode
        exact ⟨b, mem_all_trans hstep.mem_all hb, hsettles⟩
    | _ => exact ⟨_, mem_all_self _, by simp [settles, isPlain]⟩

/-! Without findings -/

theorem not_flaw {c : Call} (h : c.findings d = []) {site : Site} {x : Diagnostic} :
    ¬Flaw d c site x := by
  intro hf
  have hmem := mem_findings_of_flaw hf
  rw [h] at hmem
  cases hmem

theorem exists_step_of_pair {id : Nat} {note : Shape.Note} {keys : List (String × Shape)}
    {additional : Option Shape} {required : List String} {path : Path} {owner : Option Nat}
    {n : SyntaxNode} {pairs : List (Nat × Nat)} {k v : Nat} (hn : d.tree.node? id = some n)
    (hc : n.content = .map pairs) (hp : (k, v) ∈ pairs)
    (hclean : findings d ⟨id, .map note keys additional required, path, owner⟩ = []) :
    ∃ c', Step d ⟨id, .map note keys additional required, path, owner⟩ c' ∧ c'.id = v ∧
      (k, c'.shape) ∈ records d ⟨id, .map note keys additional required, path, owner⟩ := by
  obtain ⟨before, after, rfl⟩ := List.append_of_mem hp
  have hfirst (p : Nat × Nat) (hp : p ∈ before) : d.tree.valueOf p.1 ≠ d.tree.valueOf k :=
    fun heq => not_flaw hclean (.repeated hn hc ⟨p, hp, heq⟩)
  cases hkey : (Shape.map note keys additional required).key? (d.tree.valueOf k) with
  | none => exact (not_flaw hclean (.notAllowed hn hc hfirst hkey)).elim
  | some shape =>
    refine ⟨_, .value hn hc hfirst hkey, rfl, ?_⟩
    have hmark : (k, v, false) ∈ markRepeated d.tree [] (before ++ (k, v) :: after) :=
      mem_markRepeated.mpr ⟨before, after, rfl, by simpa using hfirst⟩
    simp only [records, hn, hc]
    exact List.mem_cons_of_mem _ (List.mem_filterMap.mpr ⟨_, hmark, by simp [under, hkey]⟩)

/-- A call without findings goes over to another one at its node or to what the node holds. Only for
a key it puts down a shape instead. -/
theorem exists_step_of_child {c : Call} (hclean : c.findings d = []) {x : Nat}
    (hx : x ∈ d.tree.childrenOf c.id) :
    (∃ c', Step d c c' ∧ (c'.id = c.id ∨ c'.id = x)) ∨
      d.tree.IsKey x ∧ ∃ shape, (x, shape) ∈ c.records d := by
  obtain ⟨id, shape, path, owner⟩ := c
  cases hn : d.tree.node? id with
  | none => simp [SyntaxTree.childrenOf, SyntaxTree.pairsOf, SyntaxTree.itemsOf, hn] at hx
  | some n =>
    have hscalar := SyntaxTree.not_isScalar_of_child hn hx
    have hnull : n.isNull = false := by
      by_contra hs
      rw [isScalar_of_isNull (by simpa using hs)] at hscalar
      cases hscalar
    cases shape with
    | value note allowed implicit => exact (not_flaw hclean (.notScalar hn hscalar)).elim
    | oneOf note alternatives =>
      cases hs : chosen? n alternatives with
      | none => exact (not_flaw hclean (.noAlternative hn hs)).elim
      | some shape => exact .inl ⟨_, .choice hn hs, .inl rfl⟩
    | sequence note item =>
      cases hc : n.content with
      | sequence items =>
        rw [SyntaxTree.childrenOf_of_sequence hn hc] at hx
        obtain ⟨i, hi⟩ := List.mem_iff_getElem?.mp hx
        exact .inl ⟨_, .item hn hc hi, .inr rfl⟩
      | _ =>
        have hseq : n.isSequence = false := by simp [SyntaxNode.isSequence, hc]
        exact .inl ⟨_, .lone hn hseq hnull, .inl rfl⟩
    | map note keys additional required =>
      cases hc : n.content with
      | map pairs =>
        obtain ⟨⟨k, v⟩, hp, hkv⟩ := (SyntaxTree.mem_childrenOf_of_map hn hc).mp hx
        obtain ⟨c', hs, hid, hrecord⟩ := exists_step_of_pair hn hc hp hclean
        obtain rfl | rfl := hkv
        · exact .inr ⟨⟨id, (x, v), SyntaxTree.pairsOf_eq hn hc ▸ hp, rfl⟩, _, hrecord⟩
        · exact .inl ⟨c', hs, .inr hid⟩
      | _ =>
        have hmap : n.isMap = false := by simp [SyntaxNode.isMap, hc]
        exact (not_flaw hclean (.notMapping hn hmap hnull)).elim

def Covers (d : Document) (c : Call) (id : Nat) : Prop :=
  (∃ b ∈ c.all d, b.id = id) ∨
    d.tree.IsKey id ∧ ∃ b ∈ c.all d, ∃ shape, (id, shape) ∈ b.records d

theorem Covers.of_mem_all {c c' : Call} (hc : c' ∈ c.all d) {id : Nat} (h : c'.Covers d id) :
    c.Covers d id := by
  obtain ⟨b, hb, hid⟩ | ⟨hkey, b, hb, hrecord⟩ := h
  · exact .inl ⟨b, mem_all_trans hc hb, hid⟩
  · exact .inr ⟨hkey, b, mem_all_trans hc hb, hrecord⟩

theorem covers_child {c : Call} (hclean : ∀ b ∈ c.all d, b.findings d = []) {x : Nat}
    (hx : x ∈ d.tree.childrenOf c.id) : c.Covers d x := by
  -- as long as the calls stay at the node, their shapes get smaller
  induction c using all.induct d with
  | case1 c ih =>
    obtain ⟨c', hs, hid | hid⟩ | ⟨hkey, hrecord⟩ :=
      exists_step_of_child (hclean c (mem_all_self c)) hx
    · refine .of_mem_all hs.mem_all (ih ⟨c', hs.mem_next⟩ (fun b hb => ?_) (hid ▸ hx))
      exact hclean b (mem_all_trans hs.mem_all hb)
    · exact .inl ⟨c', hs.mem_all, hid⟩
    · exact .inr ⟨hkey, c, mem_all_self c, hrecord⟩

end Call

/-! Whole walks -/

theorem document_eq {root : Nat} (hr : d.tree.root = some root) :
    document d schema = Call.report d ⟨root, schema, [], none⟩ := by
  simp [document, hr, Call.report]

theorem isSome_root (h : d.tree.Arena) {root : Nat} (hr : d.tree.root = some root) :
    (d.tree.node? root).isSome = true := by
  obtain ⟨n, hn, -⟩ := Option.map_eq_some_iff.mp (h.root_node root hr)
  simp [hn]

theorem isSome_shape?_of_mem {r : Report} {id : Nat} {shape : Shape} (h : (id, shape) ∈ r.shapes) :
    (r.shape? id).isSome = true := by
  rw [Report.shape?, Option.isSome_map, List.find?_isSome]
  exact ⟨(id, shape), h, by simp⟩

theorem mem_visits_of_mem_all {b c : Call} (hc : c ∈ visits d schema) (hb : b ∈ c.all d) :
    b ∈ visits d schema := by
  unfold visits at hc ⊢
  split at hc
  next => cases hc
  next => exact Call.mem_all_trans hc hb

theorem isSome_of_mem_visits (h : d.tree.Arena) {c : Call} (hc : c ∈ visits d schema) :
    (d.tree.node? c.id).isSome = true := by
  cases mem_visits.mp hc with
  | root hr => exact isSome_root h hr
  | step _ hs => exact hs.isSome_node h

theorem pairwise_visits (h : d.tree.Arena) :
    (visits d schema).Pairwise fun a b => a.id = b.id → a.isStuck d = false := by
  unfold visits
  split
  next => exact .nil
  next => exact Call.pairwise_all h _

theorem shape?_eq_settles (h : d.tree.Arena) {id : Nat} (hkey : ¬d.tree.IsKey id) :
    (document d schema).shape? id =
      ((visits d schema).find? (Call.settles d id)).map (·.shape) := by
  cases hr : d.tree.root with
  | none => simp [document, visits, hr, Report.shape?, Report.empty]
  | some root =>
    rw [document_eq hr, Report.shape?, ← List.head?_filter,
      Call.shapes_filter_all h (isSome_root h hr) hkey, visits, hr, ← List.head?_filter,
      List.head?_map, Option.map_map]
    rfl

/-- The shape of a node that is no key is that of the first call there that is not a choice. If all
of them are choices, it is the one of them that no alternative applies to. -/
theorem shape?_eq (h : d.tree.Arena) {id : Nat} (hkey : ¬d.tree.IsKey id) :
    (document d schema).shape? id =
      (((visits d schema).find? fun c => c.id == id && c.isPlain).or
        ((visits d schema).find? fun c => c.id == id && c.isStuck d)).map (·.shape) := by
  rw [shape?_eq_settles h hkey, ← Call.find?_or]
  · simp only [← Bool.and_or_distrib_left]
    rfl
  · refine (pairwise_visits h).imp fun {a b} hab ha => ?_
    obtain ⟨hid, hstuck⟩ := Bool.and_eq_true_iff.mp ha
    by_contra hb
    simp only [Bool.not_eq_false, Bool.and_eq_true, beq_iff_eq] at hid hb
    rw [hab (hid.trans hb.1.symm)] at hstuck
    cases hstuck

theorem isSome_shape?_iff (h : d.tree.Arena) {id : Nat} (hkey : ¬d.tree.IsKey id) :
    ((document d schema).shape? id).isSome = true ↔ ∃ c ∈ visits d schema, c.id = id := by
  rw [shape?_eq_settles h hkey, Option.isSome_map, List.find?_isSome]
  constructor
  · rintro ⟨c, hc, hsettles⟩
    exact ⟨c, hc, eq_of_beq (Bool.and_eq_true_iff.mp hsettles).1⟩
  · rintro ⟨c, hc, rfl⟩
    obtain ⟨b, hb, hsettles⟩ := Call.exists_settles (isSome_of_mem_visits h hc)
    exact ⟨b, mem_visits_of_mem_all hc hb, hsettles⟩

theorem findings_of_clean (h : (document d schema).diagnostics = []) {c : Call}
    (hc : c ∈ visits d schema) : c.findings d = [] := by
  unfold visits at hc
  split at hc
  next => cases hc
  next root hr =>
    rw [document_eq hr] at h
    have hperm := Call.report_perm_all (d := d) ⟨root, schema, [], none⟩
    rw [h, List.nil_perm, List.map_eq_nil_iff, List.flatMap_eq_nil_iff] at hperm
    exact hperm c hc

theorem covered_of_clean (h : d.tree.Arena) (hclean : (document d schema).diagnostics = [])
    {root : Nat} (hr : d.tree.root = some root) {id : Nat} (hw : d.tree.Within root id)
    (hinside : ¬d.tree.InsideKey id) : Call.Covers d ⟨root, schema, [], none⟩ id := by
  have hvisits : visits d schema = Call.all d ⟨root, schema, [], none⟩ := by rw [visits, hr]
  induction hw with
  | refl => exact .inl ⟨_, Call.mem_all_self _, rfl⟩
  | child hw hc ih =>
    obtain ⟨hkey, hinside⟩ := h.of_not_insideKey hc hinside
    obtain ⟨b, hb, rfl⟩ | ⟨hkey', -⟩ := ih hinside
    · refine .of_mem_all hb (Call.covers_child (fun b' hb' => ?_) hc)
      exact findings_of_clean hclean (hvisits ▸ Call.mem_all_trans hb hb')
    · exact absurd hkey' hkey

/-- If a walk finds nothing, every node of the document has a shape, other than those inside of
keys. Whatever it finds, a node that is no key has a shape exactly if the walk went there, and it is
that of the first call there that is not a choice, or else of the choice that no alternative applies
to. -/
theorem shapes_cover (h : d.tree.Arena) (schema : Shape) :
    ((document d schema).diagnostics = [] → ∀ root, d.tree.root = some root →
      ∀ id, d.tree.Within root id → ¬d.tree.InsideKey id →
        ((document d schema).shape? id).isSome = true) ∧
    ∀ id, ¬d.tree.IsKey id →
      (((document d schema).shape? id).isSome = true ↔ ∃ c ∈ visits d schema, c.id = id) ∧
      (document d schema).shape? id =
        (((visits d schema).find? fun c => c.id == id && c.isPlain).or
          ((visits d schema).find? fun c => c.id == id && c.isStuck d)).map (·.shape) := by
  refine ⟨fun hclean root hr id hw hinside => ?_,
    fun id hkey => ⟨isSome_shape?_iff h hkey, shape?_eq h hkey⟩⟩
  obtain ⟨c, hc, rfl⟩ | ⟨-, c, hc, shape, hrecord⟩ := covered_of_clean h hclean hr hw hinside
  · have hvisit : c ∈ visits d schema := by rwa [visits, hr]
    have hkey : ¬d.tree.IsKey c.id := fun ⟨_, _, hp, hid⟩ => (mem_visits.mp hvisit).not_key h hp hid
    exact (isSome_shape?_iff h hkey).mpr ⟨c, hvisit, rfl⟩
  · rw [document_eq hr]
    exact isSome_shape?_of_mem (Call.mem_shapes_iff.mpr ⟨c, hc, hrecord⟩)

/-- A lone value for a sequence, nothing for a mapping, and a mapping as a key. -/
def mappingAsKey : SyntaxTree where
  nodes := #[
    ⟨.map [(1, 2), (3, 4), (5, 8)], ⟨0, 30⟩, none⟩,
    ⟨.scalar .plain "needs" "needs", ⟨1, 6⟩, some 0⟩,
    ⟨.scalar .plain "build" "build", ⟨8, 13⟩, some 0⟩,
    ⟨.scalar .plain "env" "env", ⟨15, 18⟩, some 0⟩,
    ⟨.scalar .empty "" "", ⟨20, 20⟩, some 0⟩,
    ⟨.map [(6, 7)], ⟨22, 28⟩, some 0⟩,
    ⟨.scalar .plain "a" "a", ⟨23, 24⟩, some 5⟩,
    ⟨.scalar .plain "b" "b", ⟨26, 27⟩, some 5⟩,
    ⟨.scalar .plain "c" "c", ⟨28, 29⟩, some 0⟩]
  root := some 0

def mappingAsKeyDocument : Document := ⟨mappingAsKey, .null, fun _ _ _ => none⟩

def openNeeds : Shape :=
  .map .none [("needs", .choice [.list .scalar, .openMap .scalar]), ("env", .openMap .scalar)]
    (some .scalar) []

theorem shapes_cover_mappingAsKey :
    mappingAsKey.Arena ∧ (document mappingAsKeyDocument openNeeds).diagnostics = [] ∧
    mappingAsKey.Within 0 2 ∧ ¬mappingAsKey.InsideKey 2 ∧ ¬mappingAsKey.IsKey 2 ∧
    ((document mappingAsKeyDocument openNeeds).shape? 2).isSome = true ∧
    (document mappingAsKeyDocument openNeeds).shape? 2 =
      (((visits mappingAsKeyDocument openNeeds).find? fun c => c.id == 2 && c.isPlain).or
        ((visits mappingAsKeyDocument openNeeds).find? fun c =>
          c.id == 2 && c.isStuck mappingAsKeyDocument)).map (·.shape) ∧
    (document mappingAsKeyDocument openNeeds).shape? 2 = some (.list .scalar) ∧
    mappingAsKey.InsideKey 6 ∧ (document mappingAsKeyDocument openNeeds).shape? 6 = none := by
  have harena : mappingAsKeyDocument.tree.Arena := by decide
  have hclean : (document mappingAsKeyDocument openNeeds).diagnostics = [] := by decide
  have hchild : 2 ∈ mappingAsKey.childrenOf 0 := by decide
  have hkey : ¬mappingAsKey.IsKey 2 := by
    rintro ⟨m, p, hp, hid⟩
    obtain rfl := harena.parent_unique (hid ▸ SyntaxTree.key_child hp) hchild
    have hkeys : ∀ p ∈ mappingAsKey.pairsOf 0, p.1 ≠ 2 := by decide
    exact hkeys p hp hid
  have hinside : ¬mappingAsKey.InsideKey 2 := by
    rintro ⟨key, ⟨m, p, hp, hid⟩, hw, hne⟩
    cases hw with
    | refl => exact hne rfl
    | child hw hc =>
      obtain rfl := harena.parent_unique hc hchild
      have hle := harena.le_of_within hw
      have hlt := harena.lt_child m p.1 (SyntaxTree.key_child hp)
      omega
  have hcover := shapes_cover harena openNeeds
  have hwithin : mappingAsKey.Within 0 2 := .child .refl hchild
  refine ⟨harena, hclean, hwithin, hinside, hkey, hcover.1 hclean 0 rfl 2 hwithin hinside,
    (hcover.2 2 hkey).2, rfl, ?_, by rfl⟩
  exact ⟨5, ⟨0, (5, 8), by decide, rfl⟩, .child .refl (by decide), by decide⟩

end Check
end WorkflowLint
