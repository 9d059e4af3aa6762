import WorkflowLint.Completion
import WorkflowLint.Hover
import WorkflowLint.Proofs.Check.Structure
import WorkflowLint.Proofs.Tree.Path

/-! Places: where a walk is, and what it holds the node there to. Both can be found again without
the walk, from the tree and from the shapes that the walk put down. -/
namespace WorkflowLint.Check
variable {d : Document} {schema : Shape}

namespace Call

/-! Paths -/

structure InPlace (d : Document) (c : Call) : Prop where
  node : d.tree.pathOf c.id = c.path
  owner : ∀ key, c.owner = some key → d.tree.pathOf key = c.path

theorem Step.inPlace (h : d.tree.Arena) {c c' : Call} (hs : Step d c c') (hc : c.InPlace d) :
    c'.InPlace d := by
  cases hs with
  | choice | lone => exact ⟨hc.node, hc.owner⟩
  | item hn hi hx =>
    have hchild := SyntaxTree.item_child hn hi (List.mem_of_getElem? hx)
    refine ⟨?_, by simp⟩
    rw [h.pathOf_child hchild, hc.node, h.stepTo_item hn hi hx, Path.withIndex]
  | @value id _ _ _ _ _ _ _ _ k v _ _ hn hm _ _ =>
    obtain ⟨hk, hv⟩ := SyntaxTree.pair_children hn hm (k := k) (v := v) List.mem_append_cons_self
    have hstep {x : Nat} (hx : x ∈ d.tree.childrenOf id) (hkv : x = k ∨ x = v) :=
      (h.pathOf_child hx).trans (by
        rw [hc.node, h.stepTo_pair hn hm List.mem_append_cons_self hkv])
    refine ⟨hstep hv (.inr rfl), ?_⟩
    rintro key ⟨⟩
    exact hstep hk (.inl rfl)

end Call

theorem Reached.inPlace (h : d.tree.Arena) {c : Call} (hc : Reached d schema c) :
    c.InPlace d := by
  induction hc with
  | root hr => exact ⟨h.pathOf_root hr, by simp⟩
  | step _ hs ih => exact hs.inPlace h ih

theorem Reached.not_key (h : d.tree.Arena) {c : Call} (hc : Reached d schema c) {id : Nat}
    {p : Nat × Nat} (hp : p ∈ d.tree.pairsOf id) : p.1 ≠ c.id := by
  have hk : p.1 ∈ d.tree.childrenOf id :=
    List.mem_append_left _ (List.mem_flatMap.mpr ⟨p, hp, by simp⟩)
  induction hc with
  | root hr =>
    rintro rfl
    obtain ⟨n, hn, hnone⟩ := Option.map_eq_some_iff.mp (h.root_node _ hr)
    have hsome := h.parent_child id _ hk
    simp [SyntaxTree.parentOf, hn, hnone] at hsome
  | step _ hs ih =>
    cases hs with
    | choice | lone => exact ih
    | item hn hi hx =>
      rintro rfl
      -- the parent would be a sequence and a mapping
      obtain rfl := h.parent_unique hk (SyntaxTree.item_child hn hi (List.mem_of_getElem? hx))
      simp [SyntaxTree.pairsOf, hn, SyntaxNode.pairs, hi] at hp
    | @value _ _ _ _ _ _ _ _ before k v after _ hn hm _ _ =>
      rintro rfl
      have hmem : (k, p.1) ∈ before ++ (k, p.1) :: after := List.mem_append_cons_self
      obtain rfl := h.parent_unique hk (SyntaxTree.pair_children hn hm hmem).2
      exact h.key_ne_value hp (SyntaxTree.pairsOf_eq hn hm ▸ hmem) rfl

namespace Call

/-! Shapes -/

@[simp] theorem shapes_append (a b : Report) : (a ++ b).shapes = a.shapes ++ b.shapes := rfl

@[simp] theorem shapes_join (rs : List Report) :
    (Report.join rs).shapes = rs.flatMap (·.shapes) := rfl

@[simp] theorem shapes_ofShape (id : Nat) (shape : Shape) :
    (Report.ofShape id shape).shapes = [(id, shape)] := rfl

@[simp] theorem shapes_ofError (message : String) (span : Span) :
    (Report.ofError message span).shapes = [] := rfl

@[simp] theorem shapes_ofErrors (ds : List Diagnostic) : (Report.ofErrors ds).shapes = [] := rfl

@[simp] theorem shapes_empty : Report.empty.shapes = [] := rfl

def records (d : Document) (c : Call) : List (Nat × Shape) :=
  match d.tree.node? c.id with
  | none => []
  | some n =>
    match c.shape with
    | .oneOf _ alternatives => if (chosen? n alternatives).isNone then [(c.id, c.shape)] else []
    | .value .. | .sequence .. => [(c.id, c.shape)]
    | .map .. =>
      (c.id, c.shape) ::
        match n.content with
        | .map pairs => (markRepeated d.tree [] pairs).filterMap fun p =>
          (c.under d p).map fun c' => (p.1, c'.shape)
        | _ => []

theorem mem_flatMap_options {α β γ : Type} {l : List α} {f : α → Option β} {p : α → β → γ}
    {q : β → List γ} {e : γ} :
    (e ∈ l.flatMap fun x => (f x).toList.flatMap fun y => p x y :: q y) ↔
      (e ∈ l.filterMap fun x => (f x).map (p x)) ∨ ∃ y ∈ l.filterMap f, e ∈ q y := by
  simp only [List.mem_flatMap, Option.mem_toList, List.mem_cons, List.mem_filterMap,
    Option.map_eq_some_iff]
  constructor
  · rintro ⟨x, hx, y, hy, rfl | he⟩
    · exact .inl ⟨x, hx, y, hy, rfl⟩
    · exact .inr ⟨y, ⟨x, hx, hy⟩, he⟩
  · rintro (⟨x, hx, y, hy, rfl⟩ | ⟨y, ⟨x, hx, hy⟩, he⟩)
    · exact ⟨x, hx, y, hy, .inl rfl⟩
    · exact ⟨x, hx, y, hy, .inr he⟩

theorem mem_shapes {c : Call} {e : Nat × Shape} : e ∈ (c.report d).shapes ↔
    e ∈ c.records d ∨ ∃ c' ∈ c.next d, e ∈ (c'.report d).shapes := by
  obtain ⟨id, shape, path, owner⟩ := c
  rw [report, visit.eq_def, records, next]
  cases d.tree.node? id with
  | none => simp
  | some n =>
    cases shape with
    | value note allowed implicit => simp
    | oneOf note alternatives =>
      have hc := @getElem?_choose? n alternatives
      cases hi : choose? n alternatives with
      | none =>
        rw [hi] at hc
        simp [hi, ← hc]
      | some i =>
        rw [hi, Option.bind_some, List.getElem?_eq_getElem (choose?_lt hi)] at hc
        simp [hi, ← hc, visitNth_eq, choose?_lt hi, report]
    | sequence note item =>
      dsimp only
      cases hc : n.content with
      | sequence items => simp [report]
      | _ => by_cases hnull : n.isNull <;> simp [hnull, report]
    | map note keys additional required =>
      dsimp only
      cases hc : n.content with
      | map pairs =>
        have hpair := @pair_report d ⟨id, .map note keys additional required, path, owner⟩
          note keys additional required rfl
        simp only [hpair, shapes_append, shapes_ofShape, shapes_join, shapes_ofErrors,
          List.flatMap_map, List.nil_append, List.append_nil, List.singleton_append, List.mem_cons,
          mem_flatMap_options, or_assoc]
      | _ => by_cases hnull : n.isNull <;> simp [hnull]

theorem mem_shapes_iff {c : Call} {e : Nat × Shape} :
    e ∈ (c.report d).shapes ↔ ∃ c' ∈ c.all d, e ∈ c'.records d := by
  induction c using all.induct d with
  | case1 c ih =>
    rw [mem_shapes, all_eq]
    simp only [List.mem_cons, List.mem_flatMap]
    constructor
    · rintro (he | ⟨c', hc', he⟩)
      · exact ⟨c, .inl rfl, he⟩
      · obtain ⟨b, hb, he⟩ := (ih ⟨c', hc'⟩).mp he
        exact ⟨b, .inr ⟨c', hc', hb⟩, he⟩
    · rintro ⟨b, rfl | ⟨c', hc', hb⟩, he⟩
      · exact .inl he
      · exact .inr ⟨c', hc', (ih ⟨c', hc'⟩).mpr ⟨b, hb, he⟩⟩

theorem mem_records {c : Call} {e : Nat × Shape} (h : e ∈ c.records d) :
    e = (c.id, c.shape) ∨ ∃ p ∈ d.tree.pairsOf c.id, e.1 = p.1 := by
  unfold records at h
  cases hn : d.tree.node? c.id with
  | none => simp [hn] at h
  | some n =>
    simp only [hn] at h
    split at h
    · split at h
      · exact .inl (List.mem_singleton.mp h)
      · cases h
    · exact .inl (List.mem_singleton.mp h)
    · exact .inl (List.mem_singleton.mp h)
    · obtain h | h := List.mem_cons.mp h
      · exact .inl h
      · split at h
        · next pairs hm =>
          obtain ⟨⟨k, v, isRepeated⟩, hp, hu⟩ := List.mem_filterMap.mp h
          obtain ⟨c', -, rfl⟩ := Option.map_eq_some_iff.mp hu
          obtain ⟨before, after, rfl, -⟩ := mem_markRepeated.mp hp
          exact .inr ⟨(k, v), by simp [SyntaxTree.pairsOf_eq hn hm], rfl⟩
        · cases h

/-! Calls at one node -/

/-- Of two calls at one node, one is behind the other: the calls that a call makes at other nodes
are at different children, and their subtrees are apart. -/
theorem mem_all_or_mem_all (h : d.tree.Arena) {top a b : Call} (ha : a ∈ top.all d)
    (hb : b ∈ top.all d) (hid : a.id = b.id) : b ∈ a.all d ∨ a ∈ b.all d := by
  induction top using all.induct d with
  | case1 top ih =>
    rw [all_eq, List.mem_cons, List.mem_flatMap] at ha hb
    obtain rfl | ⟨a', ha', ha⟩ := ha
    · exact .inl (by rwa [all_eq, List.mem_cons, List.mem_flatMap])
    obtain rfl | ⟨b', hb', hb⟩ := hb
    · exact .inr (by rw [all_eq]; exact List.mem_cons_of_mem _ (List.mem_flatMap.mpr ⟨a', ha', ha⟩))
    have hab : a' = b' := by
      obtain ⟨c, hnext, -⟩ | ⟨hne, hchild⟩ := top.next_cases h
      · rw [hnext, List.mem_singleton] at ha' hb'
        rw [ha', hb']
      · refine List.inj_on_of_nodup_map (List.pairwise_map.mpr hne) ha' hb' ?_
        exact h.within_sibling_unique (hchild a' ha') (hchild b' hb') (within_of_mem_all ha)
          (hid ▸ within_of_mem_all hb)
    subst hab
    exact ih ⟨a', ha'⟩ ha hb

theorem all_of_isScalar {c : Call} (h : c.shape.isScalar = true) : c.all d = [c] := by
  obtain ⟨id, shape, path, owner⟩ := c
  have hnext : next d ⟨id, shape, path, owner⟩ = [] := by
    cases shape with
    | value note allowed implicit => cases hn : d.tree.node? id <;> simp [next, hn]
    | _ => cases h
  simp [all_eq, hnext]

theorem eq_item_of_mem_all (h : d.tree.Arena) {c : Call} {id : Nat} {note : Shape.Note}
    {item : Shape} {path : Path} {owner : Option Nat}
    (hc : c ∈ all d ⟨id, .sequence note item, path, owner⟩) (hid : c.id = id)
    (hs : c.shape.isScalar = true) (hitem : item.isScalar = true) : item = c.shape := by
  rw [all_eq, List.mem_cons, List.mem_flatMap] at hc
  obtain rfl | ⟨c', hnext, hc⟩ := hc
  · cases hs
  · cases mem_next_iff.mp hnext with
    | lone =>
      rw [all_of_isScalar hitem, List.mem_singleton] at hc
      rw [hc]
    | item hn hi hx =>
      have hchild := SyntaxTree.item_child hn hi (List.mem_of_getElem? hx)
      exact absurd (hid ▸ within_of_mem_all hc) (h.not_within_parent hchild)

end Call

theorem mem_shapes_of_shape? {r : Report} {id : Nat} {shape : Shape} (h : r.shape? id = some shape) :
    (id, shape) ∈ r.shapes := by
  obtain ⟨e, he, rfl⟩ := Option.map_eq_some_iff.mp h
  have hid : e.1 = id := by simpa using List.find?_some he
  rw [← hid]
  exact List.mem_of_find?_eq_some he

theorem Reached.call_of_shape? (h : d.tree.Arena) {c : Call} (hc : Reached d schema c)
    {shape : Shape} (hs : (document d schema).shape? c.id = some shape) :
    ∃ b : Call, b.id = c.id ∧ b.shape = shape ∧ (c ∈ b.all d ∨ b ∈ c.all d) := by
  cases hr : d.tree.root with
  | none => simp [document, hr, Report.shape?, Report.empty] at hs
  | some root =>
    have hdoc : document d schema = Call.report d ⟨root, schema, [], none⟩ := by
      simp [document, hr, Call.report]
    rw [hdoc] at hs
    obtain ⟨b, hb, he⟩ := Call.mem_shapes_iff.mp (mem_shapes_of_shape? hs)
    obtain heq | ⟨p, hp, hkey⟩ := Call.mem_records he
    · obtain ⟨hid, rfl⟩ := Prod.mk.inj heq
      exact ⟨b, hid.symm, rfl,
        Call.mem_all_or_mem_all h hb ((reached_iff_mem_all hr).mp hc) hid.symm⟩
    · exact absurd hkey.symm (hc.not_key h hp)

theorem Reached.shape_eq (h : d.tree.Arena) {c : Call} (hc : Reached d schema c)
    (hscalar : c.shape.isScalar = true) {found shape : Shape}
    (hf : (document d schema).shape? c.id = some found)
    (hs : shape = found ∨ ∃ note, found = .sequence note shape) (hshape : shape.isScalar = true) :
    shape = c.shape := by
  obtain ⟨⟨_, found, path, owner⟩, rfl, rfl, hall⟩ := hc.call_of_shape? h hf
  have hmem : c ∈ Call.all d ⟨c.id, found, path, owner⟩ := by
    obtain hmem | hmem := hall
    · exact hmem
    · rw [Call.all_of_isScalar hscalar, List.mem_singleton] at hmem
      exact hmem ▸ Call.mem_all_self _
  obtain rfl | ⟨note, rfl⟩ := hs
  · rw [Call.all_of_isScalar hshape, List.mem_singleton] at hmem
    rw [hmem]
  · exact Call.eq_item_of_mem_all h hmem rfl hscalar hshape

theorem scalarShape?_cases {a : Analysis} {id : Nat} {shape : Shape}
    (h : a.scalarShape? id = some shape) : shape.isScalar = true ∧
      ∃ found, a.report.shape? id = some found ∧
        (shape = found ∨ ∃ note, found = .sequence note shape) := by
  unfold Analysis.scalarShape? at h
  split at h
  · next hf =>
    cases h
    exact ⟨rfl, _, hf, .inl rfl⟩
  · next hf =>
    split at h
    · next hitem =>
      cases h
      exact ⟨hitem, _, hf, .inr ⟨_, rfl⟩⟩
    · cases h
  · cases h

theorem effectiveShape?_cases {a : Analysis} {id : Nat} {shape : Shape}
    (h : a.effectiveShape? id = some shape) : ∃ found, a.report.shape? id = some found ∧
      (shape = found ∨ ∃ note, found = .sequence note shape) := by
  obtain ⟨found, hf, h⟩ := Option.bind_eq_some_iff.mp h
  refine ⟨found, hf, ?_⟩
  split at h
  · split at h
    · cases h
      exact .inr ⟨_, rfl⟩
    · cases h
      exact .inl rfl
  · cases h
    exact .inl rfl

/-! Allowed values -/

def offered (allowed : Option (List AllowedValue)) : List Completion :=
  (allowed.getD []).map fun v => ⟨v.value, .value, v.description⟩

def described? (allowed : Option (List AllowedValue)) (value : String) : Option String :=
  ((allowed.getD []).find? (·.value == value)).bind (·.description)

/-- Whoever asks which values a scalar may have is told the same: the walk compares the scalar with
them, the completions offer them, and they have the texts that are shown for the scalar's value. -/
structure OneList (d : Document) (a : Analysis) (c : Call) (implicit : Bool)
    (allowed : Option (List AllowedValue)) : Prop where
  compared : ∀ n style raw value, d.tree.node? c.id = some n →
    n.content = .scalar style raw value → n.isNull = false → (c.report d).diagnostics =
      scalarAgainst (d.contexts d.workflow c.path) allowed implicit style raw value n.span
  offers : ∀ shape, a.scalarShape? c.id = some shape →
    shape = c.shape ∧ a.allowedValues c.id = offered allowed
  shown : ∀ shape, a.effectiveShape? c.id = some shape → shape.isScalar = true →
    shape = c.shape ∧ ∀ n, d.tree.node? c.id = some n → n.isScalar = true →
      a.valueText? shape c.id = described? allowed n.value ∧
      ∀ offset text, a.tree.find? offset = some c.id → described? allowed n.value = some text →
        a.hover? offset = some text
  asItReads : ∀ shape n style raw value, a.scalarShape? c.id = some shape →
    d.tree.node? c.id = some n → n.content = .scalar style raw value → n.isNull = false →
    hasMarkers raw.toList = false → implicit = false →
    ((c.report d).diagnostics = [] ↔
      allowed = none ∨ ∃ offer ∈ a.allowedValues c.id, offer.label = value)

theorem checkAllowed_eq_nil_iff {value : String} {span : Span} {allowed : List AllowedValue} :
    checkAllowed value span allowed = [] ↔ ∃ v ∈ allowed, v.value = value := by
  simp [checkAllowed]

theorem scalarAgainst_eq_nil_iff {provider : ContextProvider}
    {allowed : Option (List AllowedValue)} {style : ScalarStyle} {raw value : String}
    {span : Span} (h : hasMarkers raw.toList = false) :
    scalarAgainst provider allowed false style raw value span = [] ↔
      allowed = none ∨ ∃ offer ∈ offered allowed, offer.label = value := by
  cases allowed with
  | none => simp [scalarAgainst, h]
  | some allowed => simp [scalarAgainst, h, checkAllowed_eq_nil_iff, offered]

theorem Call.report_scalar {c : Call} {n : SyntaxNode} {note : Shape.Note}
    {values : List AllowedValue} {implicit : Bool} {style : ScalarStyle} {raw value : String}
    (hshape : c.shape = .value note values implicit) (hn : d.tree.node? c.id = some n)
    (hcontent : n.content = .scalar style raw value) (hnull : n.isNull = false) :
    (c.report d).diagnostics = scalarAgainst (d.contexts d.workflow c.path)
      (c.shape.allowedValues d.workflow c.path) implicit style raw value n.span := by
  rw [report, hshape, visit.eq_def, hn]
  simp [scalar, hcontent, hnull, scalarText]

section
variable {a : Analysis} {id : Nat} {shape : Shape}

theorem allowedValues_eq (h : a.scalarShape? id = some shape) :
    a.allowedValues id = offered (shape.allowedValues a.workflow (a.tree.pathOf id)) := by
  rw [Analysis.allowedValues, h]
  rfl

theorem valueText?_eq {n : SyntaxNode} (hshape : shape.isScalar = true)
    (hn : a.tree.node? id = some n) (hscalar : n.isScalar = true) :
    a.valueText? shape id =
      described? (shape.allowedValues a.workflow (a.tree.pathOf id)) n.value := by
  simp [Analysis.valueText?, hn, hshape, hscalar, described?]

theorem hover?_of_valueText? {offset : Nat} {text : String} (hfind : a.tree.find? offset = some id)
    (hshape : a.effectiveShape? id = some shape) (h : a.valueText? shape id = some text) :
    a.hover? offset = some text := by
  simp [Analysis.hover?, hfind, hshape, h]

end

/-- The walk, the completions and the hover texts agree. The tree has every node that the walk
reaches, and the key above it, at the path where the walk has it. If the walk holds the node to a
scalar shape, then that is the only scalar shape that the completions or the hover texts find for
the node, and the values that they have for it, at the path that the tree has, are those that the
walk compares it with. -/
theorem places_agree (h : d.tree.Arena) {c : Call} (hc : Reached d schema c) {a : Analysis}
    {before : List Diagnostic} (ha : a = .ofDocument schema d before) :
    a.tree.pathOf c.id = c.path ∧ (∀ key, c.owner = some key → a.tree.pathOf key = c.path) ∧
    ∀ note values implicit, c.shape = .value note values implicit →
      OneList d a c implicit (c.shape.allowedValues d.workflow c.path) := by
  subst ha
  obtain ⟨hnode, howner⟩ := hc.inPlace h
  refine ⟨hnode, howner, fun note values implicit hvalue => ?_⟩
  have hscalar : c.shape.isScalar = true := by rw [hvalue]; rfl
  -- the tree has the node at the path where the walk has it, so both ask for the same values
  have hallowed : c.shape.allowedValues (Analysis.ofDocument schema d before).workflow
      ((Analysis.ofDocument schema d before).tree.pathOf c.id) =
        c.shape.allowedValues d.workflow c.path := congrArg _ hnode
  have hoffers (shape : Shape)
      (hs : (Analysis.ofDocument schema d before).scalarShape? c.id = some shape) :
      shape = c.shape ∧ (Analysis.ofDocument schema d before).allowedValues c.id =
        offered (c.shape.allowedValues d.workflow c.path) := by
    obtain ⟨hshape, found, hf, hfound⟩ := scalarShape?_cases hs
    obtain rfl := hc.shape_eq h hscalar hf hfound hshape
    rw [allowedValues_eq hs, hallowed]
    exact ⟨rfl, rfl⟩
  refine ⟨fun n style raw value => Call.report_scalar hvalue, hoffers, ?_, ?_⟩
  · intro shape hs hshape
    obtain ⟨found, hf, hfound⟩ := effectiveShape?_cases hs
    obtain rfl := hc.shape_eq h hscalar hf hfound hshape
    refine ⟨rfl, fun n hn hns => ?_⟩
    have htext : (Analysis.ofDocument schema d before).valueText? c.shape c.id =
        described? (c.shape.allowedValues d.workflow c.path) n.value := by
      rw [valueText?_eq hscalar hn hns, hallowed]
    exact ⟨htext, fun offset text hfind hsome =>
      hover?_of_valueText? hfind hs (htext.trans hsome)⟩
  · intro shape n style raw value hs hn hcontent hnull hmarkers himplicit
    subst himplicit
    rw [Call.report_scalar hvalue hn hcontent hnull, (hoffers shape hs).2]
    exact scalarAgainst_eq_nil_iff hmarkers

def needsTwice : SyntaxTree where
  nodes := #[
    ⟨.map [(1, 2), (3, 4)], ⟨0, 22⟩, none⟩,
    ⟨.scalar .plain "needs" "needs", ⟨0, 5⟩, some 0⟩,
    ⟨.scalar .plain "build" "build", ⟨7, 12⟩, some 0⟩,
    ⟨.scalar .plain "needs" "needs", ⟨13, 18⟩, some 0⟩,
    ⟨.scalar .plain "x" "x", ⟨20, 21⟩, some 0⟩]
  root := some 0

/-- What is said about the one value that is allowed at a place is the path of the place. -/
def ownPath : Shape :=
  .value ⟨none, some fun _ path => .ok [⟨"build", some path.render⟩]⟩ [] false

def needsShape : Shape := .closedMap [("needs", .choice [.list ownPath, .openMap .scalar])]

def needsDocument : Document := ⟨needsTwice, .null, fun _ _ _ => none⟩

def needsAnalysis : Analysis := .ofDocument needsShape needsDocument []

theorem places_agree_lone_needs :
    needsTwice.Arena ∧ Reached needsDocument needsShape ⟨2, ownPath, [.key "needs"], some 1⟩ ∧
    needsTwice.pathOf 2 = [.key "needs"] ∧ needsTwice.pathOf 1 = [.key "needs"] ∧
    needsAnalysis.allowedValues 2 = [⟨"build", .value, some "$.needs"⟩] ∧
    needsAnalysis.hover? 8 = some "$.needs" ∧
    (visit needsDocument ownPath 2 [.key "needs"] (some 1)).diagnostics = [] := by
  have harena : needsDocument.tree.Arena := by decide
  have hcontent : NodeContent.map [(1, 2), (3, 4)] = .map ([] ++ (1, 2) :: [(3, 4)]) := rfl
  have hreached : Reached needsDocument needsShape ⟨2, ownPath, [.key "needs"], some 1⟩ :=
    .step (.step (.step (.root rfl) (.value rfl hcontent (by simp) rfl))
      (.choice rfl rfl)) (.lone rfl rfl rfl)
  obtain ⟨hnode, howner, hlist⟩ := places_agree (a := needsAnalysis) harena hreached rfl
  have hone := hlist _ _ _ rfl
  have hoffers := (hone.offers ownPath rfl).2
  refine ⟨harena, hreached, hnode, howner 1 rfl, hoffers.trans rfl, ?_, ?_⟩
  · have hfind : needsAnalysis.tree.find? 8 = some 2 := by decide +kernel
    exact ((hone.shown ownPath rfl rfl).2 _ rfl rfl).2 8 _ hfind rfl
  · exact (hone.asItReads ownPath _ _ _ _ rfl rfl rfl rfl rfl rfl).mpr
      (.inr (by rw [hoffers]; exact ⟨_, List.mem_singleton_self _, rfl⟩))

end WorkflowLint.Check
