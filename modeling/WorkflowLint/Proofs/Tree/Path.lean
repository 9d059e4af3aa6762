import WorkflowLint.Proofs.Tree.Arena
import Mathlib.Data.List.Pairwise

/-! The path of a node, which is read off its parents, is that of its parent and one step. -/
namespace WorkflowLint.SyntaxTree.Arena
variable {tree : SyntaxTree}

theorem pathOf_root (h : tree.Arena) {root : Nat} (hr : tree.root = some root) :
    tree.pathOf root = [] := by
  have hp : tree.parentOf root = none := by
    obtain ⟨n, hn, hp⟩ := Option.map_eq_some_iff.mp (h.root_node root hr)
    simp [parentOf, hn, hp]
  rw [pathOf, hp]

theorem pathOf_child (h : tree.Arena) {id child : Nat} (hc : child ∈ tree.childrenOf id) :
    tree.pathOf child = tree.pathOf id ++ tree.stepTo id child := by
  rw [pathOf, h.parent_child id child hc]
  simp [h.lt_child id child hc]

theorem pair_unique (h : tree.Arena) {id x : Nat} {p q : Nat × Nat} (hp : p ∈ tree.pairsOf id)
    (hq : q ∈ tree.pairsOf id) (hxp : x = p.1 ∨ x = p.2) (hxq : x = q.1 ∨ x = q.2) : p = q := by
  by_contra hne
  have hflat : (tree.pairsOf id).Pairwise fun p q => [p.1, p.2].Disjoint [q.1, q.2] :=
    (List.nodup_flatMap.mp (h.nodup_children id).of_append_left).2
  have : Std.Symm fun p q : Nat × Nat => [p.1, p.2].Disjoint [q.1, q.2] :=
    ⟨fun _ _ hab _ hx hy => hab hy hx⟩
  exact hflat.forall hp hq hne (by simpa using hxp) (by simpa using hxq)

theorem key_ne_value (h : tree.Arena) {id : Nat} {p q : Nat × Nat} (hp : p ∈ tree.pairsOf id)
    (hq : q ∈ tree.pairsOf id) : p.1 ≠ q.2 := by
  intro heq
  obtain rfl := h.pair_unique hp hq (.inl rfl) (.inr heq)
  have hnodup := (List.nodup_flatMap.mp (h.nodup_children id).of_append_left).1 p hp
  simp [heq] at hnodup

theorem find?_pair (h : tree.Arena) {id : Nat} {k v x : Nat} (hp : (k, v) ∈ tree.pairsOf id)
    (hx : x = k ∨ x = v) :
    (tree.pairsOf id).find? (fun (k, v) => k == x || v == x) = some (k, v) := by
  cases hf : (tree.pairsOf id).find? (fun (k, v) => k == x || v == x) with
  | none =>
    have hnot := List.find?_eq_none.mp hf (k, v) hp
    obtain rfl | rfl := hx <;> simp at hnot
  | some q =>
    have hq : x = q.1 ∨ x = q.2 := by
      have hbeq := List.find?_some hf
      simp only [Bool.or_eq_true, beq_iff_eq] at hbeq
      exact hbeq.imp Eq.symm Eq.symm
    rw [h.pair_unique (List.mem_of_find?_eq_some hf) hp hq hx]

theorem stepTo_pair (h : tree.Arena) {id : Nat} {n : SyntaxNode} {pairs : List (Nat × Nat)}
    {k v x : Nat} (hn : tree.node? id = some n) (hc : n.content = .map pairs) (hp : (k, v) ∈ pairs)
    (hx : x = k ∨ x = v) : tree.stepTo id x = [.key (tree.valueOf k)] := by
  rw [← pairsOf_eq hn hc] at hp
  have hfind := h.find?_pair hp hx
  rw [pairsOf_eq hn hc] at hfind
  simp [stepTo, hn, hc, hfind]

theorem stepTo_item (h : tree.Arena) {id i x : Nat} {n : SyntaxNode} {items : List Nat}
    (hn : tree.node? id = some n) (hc : n.content = .sequence items) (hx : items[i]? = some x) :
    tree.stepTo id x = [.index i] := by
  have hnodup := h.nodup_items id
  rw [itemsOf_eq hn hc] at hnodup
  obtain ⟨hi, rfl⟩ := List.getElem?_eq_some_iff.mp hx
  have hfind : items.findIdx? (· == items[i]) = some i := by
    rw [List.findIdx?_eq_some_iff_getElem]
    refine ⟨hi, by simp, fun j hj heq => ?_⟩
    have hji := (hnodup.getElem_inj_iff).mp (by simpa using heq)
    omega
  simp [stepTo, hn, hc, hfind]

end WorkflowLint.SyntaxTree.Arena
