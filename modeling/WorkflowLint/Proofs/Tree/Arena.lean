import WorkflowLint.Tree.Basic
import Mathlib.Data.List.Nodup

/-! Trees whose numbering is sound: every node is held by the one node that it names as its parent,
once, and under a smaller number. The subtrees of two children of a node then share nothing. -/
namespace WorkflowLint.SyntaxTree
variable {tree : SyntaxTree}

def childrenOf (tree : SyntaxTree) (id : Nat) : List Nat :=
  (tree.pairsOf id).flatMap (fun (k, v) => [k, v]) ++ tree.itemsOf id

structure Arena (tree : SyntaxTree) : Prop where
  root_node : ∀ root, tree.root = some root → (tree.node? root).map (·.parent) = some none
  lt_child : ∀ id, ∀ child ∈ tree.childrenOf id, id < child
  parent_child : ∀ id, ∀ child ∈ tree.childrenOf id, tree.parentOf child = some id
  nodup_children : ∀ id, (tree.childrenOf id).Nodup

theorem childrenOf_of_size_le {id : Nat} (h : tree.size ≤ id) : tree.childrenOf id = [] := by
  have hn : tree.node? id = none := by simpa [node?, size] using h
  simp [childrenOf, pairsOf, itemsOf, hn]

theorem arena_iff : tree.Arena ↔
    (∀ root ∈ tree.root, (tree.node? root).map (·.parent) = some none) ∧
    ∀ id < tree.size, (∀ child ∈ tree.childrenOf id, id < child ∧ tree.parentOf child = some id) ∧
      (tree.childrenOf id).Nodup := by
  constructor
  · intro h
    exact ⟨h.root_node, fun id _ =>
      ⟨fun child hc => ⟨h.lt_child id child hc, h.parent_child id child hc⟩, h.nodup_children id⟩⟩
  · rintro ⟨hroot, h⟩
    have hall (id : Nat) : (∀ child ∈ tree.childrenOf id,
        id < child ∧ tree.parentOf child = some id) ∧ (tree.childrenOf id).Nodup := by
      by_cases hid : id < tree.size
      · exact h id hid
      · simp [childrenOf_of_size_le (Nat.le_of_not_lt hid)]
    exact ⟨hroot, fun id child hc => ((hall id).1 child hc).1,
      fun id child hc => ((hall id).1 child hc).2, fun id => (hall id).2⟩

instance : Decidable tree.Arena := decidable_of_iff _ arena_iff.symm

theorem pairsOf_eq {id : Nat} {n : SyntaxNode} {pairs : List (Nat × Nat)}
    (hn : tree.node? id = some n) (hc : n.content = .map pairs) : tree.pairsOf id = pairs := by
  simp [pairsOf, hn, SyntaxNode.pairs, hc]

theorem itemsOf_eq {id : Nat} {n : SyntaxNode} {items : List Nat}
    (hn : tree.node? id = some n) (hc : n.content = .sequence items) :
    tree.itemsOf id = items := by
  simp [itemsOf, hn, SyntaxNode.items, hc]

theorem pair_children {id : Nat} {n : SyntaxNode} {pairs : List (Nat × Nat)} {k v : Nat}
    (hn : tree.node? id = some n) (hc : n.content = .map pairs) (h : (k, v) ∈ pairs) :
    k ∈ tree.childrenOf id ∧ v ∈ tree.childrenOf id := by
  rw [childrenOf, pairsOf_eq hn hc]
  constructor <;> exact List.mem_append_left _ (List.mem_flatMap.mpr ⟨(k, v), h, by simp⟩)

theorem item_child {id : Nat} {n : SyntaxNode} {items : List Nat} {x : Nat}
    (hn : tree.node? id = some n) (hc : n.content = .sequence items) (h : x ∈ items) :
    x ∈ tree.childrenOf id := by
  rw [childrenOf, itemsOf_eq hn hc]
  exact List.mem_append_right _ h

/-- The node is `top` or somewhere inside of it. -/
inductive Within (tree : SyntaxTree) (top : Nat) : Nat → Prop
  | refl : Within tree top top
  | child {id child : Nat} : Within tree top id → child ∈ tree.childrenOf id →
      Within tree top child

theorem Within.trans {a b c : Nat} (hab : tree.Within a b) (hbc : tree.Within b c) :
    tree.Within a c := by
  induction hbc with
  | refl => exact hab
  | child _ hc ih => exact ih.child hc

namespace Arena

theorem parent_unique (h : tree.Arena) {a b child : Nat} (ha : child ∈ tree.childrenOf a)
    (hb : child ∈ tree.childrenOf b) : a = b := by
  have hp := h.parent_child a child ha
  rw [h.parent_child b child hb] at hp
  exact (Option.some.inj hp).symm

theorem child_lt_size (h : tree.Arena) {id child : Nat} (hc : child ∈ tree.childrenOf id) :
    child < tree.size := by
  by_contra hge
  have hparent := h.parent_child id child hc
  have hnone : tree.node? child = none := by simpa [node?, size] using hge
  simp [parentOf, hnone] at hparent

theorem le_of_within (h : tree.Arena) {top id : Nat} (hw : tree.Within top id) : top ≤ id := by
  induction hw with
  | refl => exact Nat.le_refl _
  | @child id child _ hc ih =>
    have hlt := h.lt_child id child hc
    omega

theorem nodup_items (h : tree.Arena) (id : Nat) : (tree.itemsOf id).Nodup :=
  (h.nodup_children id).of_append_right

theorem pairwise_pairs (h : tree.Arena) (id : Nat) :
    (tree.pairsOf id).Pairwise fun p q => p.1 ≠ q.1 ∧ p.2 ≠ q.2 := by
  have hflat := (List.nodup_flatMap.mp (h.nodup_children id).of_append_left).2
  refine hflat.imp fun {p q} hpq => ?_
  have hdisjoint : [p.1, p.2].Disjoint [q.1, q.2] := hpq
  simp only [List.disjoint_cons_left, List.mem_cons, List.not_mem_nil, or_false] at hdisjoint
  tauto

theorem within_or_within (h : tree.Arena) {a b id : Nat} (ha : tree.Within a id)
    (hb : tree.Within b id) : tree.Within a b ∨ tree.Within b a := by
  induction ha with
  | refl => exact .inr hb
  | @child p id hp hc ih =>
    cases hb with
    | refl => exact .inl (hp.child hc)
    | @child q _ hq hc' =>
      obtain rfl := h.parent_unique hc hc'
      exact ih hq

theorem not_within_parent (h : tree.Arena) {id child : Nat} (hc : child ∈ tree.childrenOf id) :
    ¬tree.Within child id := by
  intro hw
  have hlt := h.lt_child id child hc
  have hle := h.le_of_within hw
  omega

theorem sibling_not_within (h : tree.Arena) {id a b : Nat} (ha : a ∈ tree.childrenOf id)
    (hb : b ∈ tree.childrenOf id) (hab : a ≠ b) : ¬tree.Within a b := by
  intro hw
  cases hw with
  | refl => exact hab rfl
  | @child p _ hp hc =>
    obtain rfl := h.parent_unique hb hc
    exact h.not_within_parent ha hp

theorem within_sibling_unique (h : tree.Arena) {id a b x : Nat} (ha : a ∈ tree.childrenOf id)
    (hb : b ∈ tree.childrenOf id) (hax : tree.Within a x) (hbx : tree.Within b x) : a = b := by
  by_contra hab
  obtain hw | hw := h.within_or_within hax hbx
  · exact h.sibling_not_within ha hb hab hw
  · exact h.sibling_not_within hb ha (Ne.symm hab) hw

end Arena
end WorkflowLint.SyntaxTree
