import Mathlib.Data.List.Chain
import WorkflowLint.Proofs.Tree.Arena
import WorkflowLint.Tree.Find

/-! The node at an offset. Going down by the last part that begins before the offset arrives at the
same node as looking at all of them, if the parts of a node are inside of it and do not even touch
each other. -/
namespace WorkflowLint

instance {a b : Span} : Decidable (a.Inside b) :=
  decidable_of_iff (b.start ≤ a.start ∧ a.start ≤ a.stop ∧ a.stop ≤ b.stop)
    ⟨fun ⟨hstart, hle, hstop⟩ => ⟨hstart, hle, hstop⟩, fun h => ⟨h.start, h.le, h.stop⟩⟩

namespace SyntaxTree
variable {tree : SyntaxTree} {offset : Nat}

/-- A key, and its value unless that is missing: a missing value is no place of its own. -/
def pairPlaces (tree : SyntaxTree) (p : Nat × Nat) : List Nat :=
  p.1 :: if (tree.node? p.2).any (·.isEmpty) then [] else [p.2]

def placesOf (tree : SyntaxTree) (id : Nat) : List Nat :=
  (tree.pairsOf id).flatMap tree.pairPlaces ++ tree.itemsOf id

/-- The places in a node are inside of it, and something stands between one and the next. -/
structure Spaced (tree : SyntaxTree) : Prop where
  inside : ∀ id, ∀ place ∈ tree.placesOf id, (tree.spanOf place).Inside (tree.spanOf id)
  apart : ∀ id, (tree.placesOf id).IsChain fun a b => (tree.spanOf a).stop < (tree.spanOf b).start

inductive Reaches (tree : SyntaxTree) (top : Nat) : Nat → Nat → Prop
  | top : Reaches tree top 0 top
  | place {depth id place : Nat} : Reaches tree top depth id → place ∈ tree.placesOf id →
      Reaches tree top (depth + 1) place

/-- Of all nodes below `top` that touch an offset, the one that is further down than any other. -/
def Deepest (tree : SyntaxTree) (top offset id : Nat) : Prop :=
  ∃ depth, tree.Reaches top depth id ∧ (tree.spanOf id).touches offset = true ∧
    ∀ d x, tree.Reaches top d x → (tree.spanOf x).touches offset = true →
      d < depth ∨ d = depth ∧ x = id

theorem placesOf_of_size_le {id : Nat} (h : tree.size ≤ id) : tree.placesOf id = [] := by
  have hn : tree.node? id = none := by simpa [node?, size] using h
  simp [placesOf, pairsOf, itemsOf, hn]

theorem spaced_iff : tree.Spaced ↔ ∀ id < tree.size,
    (∀ place ∈ tree.placesOf id, (tree.spanOf place).Inside (tree.spanOf id)) ∧
    (tree.placesOf id).IsChain fun a b => (tree.spanOf a).stop < (tree.spanOf b).start := by
  constructor
  · intro h id _
    exact ⟨h.inside id, h.apart id⟩
  · intro h
    have hall (id : Nat) : (∀ place ∈ tree.placesOf id,
          (tree.spanOf place).Inside (tree.spanOf id)) ∧
        (tree.placesOf id).IsChain fun a b => (tree.spanOf a).stop < (tree.spanOf b).start := by
      by_cases hid : id < tree.size
      · exact h id hid
      · simp [placesOf_of_size_le (Nat.le_of_not_lt hid)]
    exact ⟨fun id => (hall id).1, fun id => (hall id).2⟩

instance : Decidable tree.Spaced := decidable_of_iff _ spaced_iff.symm

theorem mem_pairPlaces {p : Nat × Nat} {x : Nat} : x ∈ tree.pairPlaces p ↔
    x = p.1 ∨ x = p.2 ∧ (tree.node? p.2).any (·.isEmpty) = false := by
  rw [pairPlaces, List.mem_cons]
  cases (tree.node? p.2).any (·.isEmpty) <;> simp

theorem mem_placesOf {id x : Nat} : x ∈ tree.placesOf id ↔
    (∃ p ∈ tree.pairsOf id, x ∈ tree.pairPlaces p) ∨ x ∈ tree.itemsOf id := by
  rw [placesOf, List.mem_append, List.mem_flatMap]

theorem mem_childrenOf_of_place {id x : Nat} (h : x ∈ tree.placesOf id) :
    x ∈ tree.childrenOf id := by
  rw [childrenOf, List.mem_append, List.mem_flatMap]
  obtain ⟨p, hp, hx⟩ | hx := mem_placesOf.mp h
  · refine .inl ⟨p, hp, ?_⟩
    obtain rfl | ⟨rfl, -⟩ := mem_pairPlaces.mp hx <;> simp
  · exact .inr hx

/-! One step down -/

/-- However the boundary is looked for: if all before `x` begin at or before the offset and all
behind it later, `x` is the last one that begins before. -/
theorem lastBefore?_of_pairwise {α : Type} {R : α → α → Prop} {start : α → Nat} {xs : List α}
    {x : α} (hxs : xs.Pairwise R) (hmem : x ∈ xs) (hx : start x ≤ offset)
    (hfront : ∀ y ∈ xs, R y x → start y ≤ offset) (hback : ∀ y ∈ xs, R x y → offset < start y) :
    lastBefore? start offset xs = some x := by
  obtain ⟨front, back, rfl⟩ := List.append_of_mem hmem
  obtain ⟨-, hxback, hfrontx⟩ := List.pairwise_append.mp hxs
  have hbefore : ∀ y ∈ front, decide (start y ≤ offset) = true := by
    intro y hy
    have hle := hfront y (List.mem_append_left _ hy) (hfrontx y hy x List.mem_cons_self)
    exact decide_eq_true hle
  have hbehind : back.takeWhile (fun y => decide (start y ≤ offset)) = [] := by
    cases back with
    | nil => rfl
    | cons y back =>
      have hlt := hback y (by simp) ((List.pairwise_cons.mp hxback).1 y List.mem_cons_self)
      rw [List.takeWhile_cons_of_neg (by simpa using hlt)]
  rw [lastBefore?, List.takeWhile_append_of_pos hbefore,
    List.takeWhile_cons_of_pos (by simpa using hx), hbehind, List.getLast?_concat]

theorem mem_of_lastBefore? {α : Type} {start : α → Nat} {xs : List α} {x : α}
    (h : lastBefore? start offset xs = some x) : x ∈ xs :=
  (List.takeWhile_sublist _).mem (List.mem_of_getLast? h)

namespace Spaced

theorem pairwise (h : tree.Spaced) (id : Nat) :
    (tree.placesOf id).Pairwise fun a b => (tree.spanOf a).stop < (tree.spanOf b).start := by
  let Before (a b : Nat) : Prop := (tree.spanOf a).stop < (tree.spanOf b).start ∧
    (tree.spanOf b).start ≤ (tree.spanOf b).stop
  have htrans : Trans Before Before Before := ⟨fun hab hbc => ⟨by grind, hbc.2⟩⟩
  have hchain : (tree.placesOf id).IsChain Before :=
    (h.apart id).imp_of_mem_imp fun a b _ hb hab => ⟨hab, (h.inside id b hb).le⟩
  exact hchain.pairwise.imp And.left

theorem le (h : tree.Spaced) {id x : Nat} (hx : x ∈ tree.placesOf id) :
    (tree.spanOf x).start ≤ (tree.spanOf x).stop := (h.inside id x hx).le

theorem touches_of_place (h : tree.Spaced) {id x : Nat} (hx : x ∈ tree.placesOf id)
    (ht : (tree.spanOf x).touches offset = true) : (tree.spanOf id).touches offset = true := by
  rw [Span.touches_iff] at ht ⊢
  have hinside := h.inside id x hx
  exact ⟨Nat.le_trans hinside.start ht.1, Nat.le_trans ht.2 hinside.stop⟩

theorem key_lt_value (h : tree.Spaced) {id : Nat} {p : Nat × Nat} (hp : p ∈ tree.pairsOf id)
    (hwritten : (tree.node? p.2).any (·.isEmpty) = false) :
    (tree.spanOf p.1).stop < (tree.spanOf p.2).start := by
  have hpairs := List.pairwise_flatMap.mp (List.pairwise_append.mp (h.pairwise id)).1
  have hown := hpairs.1 p hp
  rw [pairPlaces, hwritten] at hown
  simpa using hown

theorem lastBefore?_pair (h : tree.Spaced) {id x : Nat} {p : Nat × Nat}
    (hp : p ∈ tree.pairsOf id) (hx : x ∈ tree.pairPlaces p)
    (ht : (tree.spanOf x).touches offset = true) :
    lastBefore? (fun p => (tree.spanOf p.1).start) offset (tree.pairsOf id) = some p := by
  rw [Span.touches_iff] at ht
  have hkey {q : Nat × Nat} (hq : q ∈ tree.pairsOf id) :
      (tree.spanOf q.1).start ≤ (tree.spanOf q.1).stop :=
    h.le (mem_placesOf.mpr (.inl ⟨q, hq, List.mem_cons_self⟩))
  have hpairs := List.pairwise_flatMap.mp (List.pairwise_append.mp (h.pairwise id)).1
  refine lastBefore?_of_pairwise hpairs.2 hp ?_ (fun q hq hqp => ?_) fun q _ hpq => ?_
  · obtain rfl | ⟨rfl, hwritten⟩ := mem_pairPlaces.mp hx
    · exact ht.1
    · have hlt := h.key_lt_value hp hwritten
      have hle := hkey hp
      omega
  · have hlt := hqp q.1 List.mem_cons_self x hx
    have hle := hkey hq
    omega
  · have hlt := hpq x hx q.1 List.mem_cons_self
    omega

theorem lastBefore?_item (h : tree.Spaced) {id x : Nat} (hx : x ∈ tree.itemsOf id)
    (ht : (tree.spanOf x).touches offset = true) :
    lastBefore? (fun i => (tree.spanOf i).start) offset (tree.itemsOf id) = some x := by
  rw [Span.touches_iff] at ht
  have hitems := (List.pairwise_append.mp (h.pairwise id)).2.1
  refine lastBefore?_of_pairwise hitems hx ht.1 (fun y hy hlt => ?_) fun y _ hlt => by omega
  have hle := h.le (mem_placesOf.mpr (.inr hy))
  omega

end Spaced

theorem childAt?_map {n : SyntaxNode} {pairs : List (Nat × Nat)} (hc : n.content = .map pairs) :
    tree.childAt? n offset =
      (lastBefore? (fun p => (tree.spanOf p.1).start) offset pairs).bind fun p =>
        (tree.node? p.2).bind fun v =>
          if (tree.spanOf p.1).touches offset then some p.1
          else if !v.isEmpty && v.span.touches offset then some p.2 else none := by
  rw [childAt?, hc]
  rfl

theorem childAt?_sequence {n : SyntaxNode} {items : List Nat} (hc : n.content = .sequence items) :
    tree.childAt? n offset =
      (lastBefore? (fun i => (tree.spanOf i).start) offset items).bind fun i =>
        if (tree.spanOf i).touches offset then some i else none := by
  rw [childAt?, hc]
  rfl

theorem place_of_childAt? {id x : Nat} {n : SyntaxNode} (hn : tree.node? id = some n)
    (h : tree.childAt? n offset = some x) :
    x ∈ tree.placesOf id ∧ (tree.spanOf x).touches offset = true := by
  cases hc : n.content with
  | map pairs =>
    rw [childAt?_map hc, ← pairsOf_eq hn hc] at h
    obtain ⟨p, hlast, hp⟩ := Option.bind_eq_some_iff.mp h
    obtain ⟨v, hv, hstep⟩ := Option.bind_eq_some_iff.mp hp
    have hplace (hx : x ∈ tree.pairPlaces p) : x ∈ tree.placesOf id :=
      mem_placesOf.mpr (.inl ⟨p, mem_of_lastBefore? hlast, hx⟩)
    split at hstep
    next hkey =>
      cases hstep
      exact ⟨hplace List.mem_cons_self, hkey⟩
    next =>
      obtain ⟨hvalue, hx⟩ := Option.ite_none_right_eq_some.mp hstep
      cases hx
      obtain ⟨hwritten, htouches⟩ : v.isEmpty = false ∧ v.span.touches offset = true := by
        simpa using hvalue
      exact ⟨hplace (mem_pairPlaces.mpr (.inr ⟨rfl, by simp [hv, hwritten]⟩)),
        by simpa [spanOf, hv] using htouches⟩
  | sequence items =>
    rw [childAt?_sequence hc, ← itemsOf_eq hn hc] at h
    obtain ⟨i, hlast, hi⟩ := Option.bind_eq_some_iff.mp h
    obtain ⟨htouches, hx⟩ := Option.ite_none_right_eq_some.mp hi
    cases hx
    exact ⟨mem_placesOf.mpr (.inr (mem_of_lastBefore? hlast)), htouches⟩
  | scalar style raw value => simp [childAt?, hc] at h

theorem childAt?_of_place (harena : tree.Arena) (h : tree.Spaced) {id x : Nat} {n : SyntaxNode}
    (hn : tree.node? id = some n) (hx : x ∈ tree.placesOf id)
    (ht : (tree.spanOf x).touches offset = true) : tree.childAt? n offset = some x := by
  obtain ⟨p, hp, hxp⟩ | hx := mem_placesOf.mp hx
  · obtain ⟨pairs, hc⟩ : ∃ pairs, n.content = .map pairs := by
      cases hc : n.content <;> simp [pairsOf, hn, SyntaxNode.pairs, hc] at hp ⊢
    obtain ⟨v, hv⟩ : ∃ v, tree.node? p.2 = some v := by
      have hparent := harena.parent_child id p.2 (pair_children hn hc (pairsOf_eq hn hc ▸ hp)).2
      obtain ⟨v, hv, -⟩ := Option.bind_eq_some_iff.mp hparent
      exact ⟨v, hv⟩
    rw [childAt?_map hc, ← pairsOf_eq hn hc, h.lastBefore?_pair hp hxp ht, Option.bind_some, hv,
      Option.bind_some]
    obtain rfl | ⟨rfl, hwritten⟩ := mem_pairPlaces.mp hxp
    · rw [if_pos ht]
    · have hkey : (tree.spanOf p.1).touches offset ≠ true := by
        have hlt := h.key_lt_value hp hwritten
        rw [Ne, Span.touches_iff]
        rw [Span.touches_iff] at ht
        omega
      have hvalue : (!v.isEmpty && v.span.touches offset) = true := by
        simp only [hv, Option.any_some] at hwritten
        simp only [spanOf, hv, Option.map_some, Option.getD_some] at ht
        simp [hwritten, ht]
      rw [if_neg hkey, if_pos hvalue]
  · obtain ⟨items, hc⟩ : ∃ items, n.content = .sequence items := by
      cases hc : n.content <;> simp [itemsOf, hn, SyntaxNode.items, hc] at hx ⊢
    rw [childAt?_sequence hc, ← itemsOf_eq hn hc, h.lastBefore?_item hx ht, Option.bind_some,
      if_pos ht]

/-! All the way down -/

theorem Reaches.exists_place {top depth x : Nat} (h : tree.Reaches top (depth + 1) x) :
    ∃ place ∈ tree.placesOf top, tree.Reaches place depth x := by
  induction depth generalizing x with
  | zero =>
    cases h with
    | place htop hx =>
      cases htop
      exact ⟨x, hx, .top⟩
  | succ depth ih =>
    cases h with
    | place hid hx =>
      obtain ⟨place, hplace, hbelow⟩ := ih hid
      exact ⟨place, hplace, hbelow.place hx⟩

theorem Reaches.of_place {top place depth x : Nat} (hplace : place ∈ tree.placesOf top)
    (h : tree.Reaches place depth x) : tree.Reaches top (depth + 1) x := by
  induction h with
  | top => exact .place .top hplace
  | place _ hx ih => exact ih.place hx

theorem Spaced.touches_of_reaches (h : tree.Spaced) {top depth x : Nat}
    (hreach : tree.Reaches top depth x) (ht : (tree.spanOf x).touches offset = true) :
    (tree.spanOf top).touches offset = true := by
  induction hreach with
  | top => exact ht
  | place _ hx ih => exact ih (h.touches_of_place hx ht)

theorem findFrom_deepest (harena : tree.Arena) (h : tree.Spaced) {top : Nat} {n : SyntaxNode}
    (hn : tree.node? top = some n) (ht : (tree.spanOf top).touches offset = true) :
    tree.Deepest top offset (tree.findFrom offset top) := by
  fun_induction findFrom tree offset top generalizing n with
  | case1 top hnone =>
    rw [hn, Option.bind_some] at hnone
    refine ⟨0, .top, ht, fun d x hreach hx => ?_⟩
    cases d with
    | zero =>
      cases hreach
      exact .inr ⟨rfl, rfl⟩
    | succ d =>
      obtain ⟨place, hplace, hbelow⟩ := hreach.exists_place
      have hchild := childAt?_of_place harena h hn hplace (h.touches_of_reaches hbelow hx)
      rw [hnone] at hchild
      cases hchild
  | case2 top child hsome hlt ih =>
    rw [hn, Option.bind_some] at hsome
    obtain ⟨hchild, htouches⟩ := place_of_childAt? hn hsome
    obtain ⟨depth, hreach, hid, hdeepest⟩ := ih (Array.getElem?_eq_getElem hlt.2) htouches
    refine ⟨depth + 1, hreach.of_place hchild, hid, fun d x hx hxt => ?_⟩
    cases d with
    | zero => exact .inl (Nat.succ_pos depth)
    | succ d =>
      obtain ⟨place, hplace, hbelow⟩ := hx.exists_place
      -- No other place in the node touches the offset, so the way to `x` goes through the child.
      have hsame := childAt?_of_place harena h hn hplace (h.touches_of_reaches hbelow hxt)
      rw [hsome] at hsame
      cases hsame
      have hbound := hdeepest d x hbelow hxt
      omega
  | case3 top child hsome hlt =>
    rw [hn, Option.bind_some] at hsome
    have hchild := mem_childrenOf_of_place (place_of_childAt? hn hsome).1
    exact absurd ⟨harena.lt_child top child hchild, harena.child_lt_size hchild⟩ hlt

theorem Deepest.unique {top a b : Nat} (ha : tree.Deepest top offset a)
    (hb : tree.Deepest top offset b) : a = b := by
  obtain ⟨d, hd, hta, hdeepa⟩ := ha
  obtain ⟨e, he, htb, hdeepb⟩ := hb
  have hba := hdeepa e b he htb
  have hab := hdeepb d a hd hta
  omega

/-- There is a node at an offset exactly if the root touches the offset, and it is the one node that
is further down than all others that touch it. -/
theorem find?_eq_deepest (harena : tree.Arena) (h : tree.Spaced) (offset : Nat) :
    (tree.find? offset = none ↔
      ∀ root ∈ tree.root, (tree.spanOf root).touches offset = false) ∧
    ∀ id, tree.find? offset = some id ↔ ∃ root ∈ tree.root, tree.Deepest root offset id := by
  cases hroot : tree.root with
  | none => simp [find?, hroot]
  | some root =>
    obtain ⟨n, hn, -⟩ := Option.map_eq_some_iff.mp (harena.root_node root hroot)
    simp only [find?, hroot, Option.bind_some, Option.mem_some_iff, forall_eq', exists_eq_left']
    cases ht : (tree.spanOf root).touches offset with
    | true =>
      have hdeepest := findFrom_deepest harena h hn ht
      refine ⟨by simp, fun id => ?_⟩
      rw [if_pos rfl, Option.some.injEq]
      constructor
      · rintro rfl
        exact hdeepest
      · exact hdeepest.unique
    | false =>
      refine ⟨by simp, fun id => iff_of_false (by simp) ?_⟩
      rintro ⟨depth, hreach, hid, -⟩
      rw [h.touches_of_reaches hreach hid] at ht
      cases ht

def gappy : SyntaxTree where
  root := some 0
  nodes := #[
    ⟨.map [(1, 2), (3, 4)], ⟨0, 11⟩, none⟩,
    ⟨.scalar .plain "a" "a", ⟨0, 1⟩, some 0⟩,
    ⟨.scalar .empty "" "", ⟨2, 2⟩, some 0⟩,
    ⟨.scalar .plain "b" "b", ⟨3, 4⟩, some 0⟩,
    ⟨.sequence [5, 6], ⟨6, 11⟩, some 0⟩,
    ⟨.scalar .plain "x" "x", ⟨7, 8⟩, some 4⟩,
    ⟨.scalar .empty "" "", ⟨10, 10⟩, some 4⟩]

theorem find?_eq_deepest_gappy :
    gappy.Arena ∧ gappy.Spaced ∧ gappy.find? 12 = none ∧
    (gappy.find? 2 = some 0 ∧ ∃ root ∈ gappy.root, gappy.Deepest root 2 0) ∧
    gappy.find? 10 = some 6 ∧ ∃ root ∈ gappy.root, gappy.Deepest root 10 6 := by
  have harena : gappy.Arena := by decide
  have hspaced : gappy.Spaced := by decide
  have hvalue : gappy.find? 2 = some 0 := by cbv
  have hitem : gappy.find? 10 = some 6 := by cbv
  refine ⟨harena, hspaced, (find?_eq_deepest harena hspaced 12).1.mpr (by decide), ⟨hvalue, ?_⟩,
    hitem, ?_⟩
  · exact ((find?_eq_deepest harena hspaced 2).2 0).mp hvalue
  · exact ((find?_eq_deepest harena hspaced 10).2 6).mp hitem

end SyntaxTree
end WorkflowLint
