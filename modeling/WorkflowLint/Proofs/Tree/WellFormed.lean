import WorkflowLint.Proofs.Tree.Numbering

/-! The tree of a text is well-formed, whatever there is in the text. -/
open WorkflowLint.Tree (Outline Source)
open WorkflowLint.Tree.Outline (Stands itemIds numbered)
namespace WorkflowLint

theorem Tree.Source.span_inside {source : Source} (hplace : Monotone source.place) {a b : Span}
    (h : a.Inside b) : (source.span a).Inside (source.span b) :=
  ⟨hplace h.start, hplace h.le, hplace h.stop⟩

theorem Tree.Source.place_ofText (text : List Char) :
    (Source.ofText text).place = Text.charOffset text :=
  funext (Text.CharIndex.toChar_ofText text)

namespace SyntaxTree
variable {source : Source} {top : Outline}

/-- All nodes hang together under the root, each of them held once, and the nodes that a node holds
are inside of it, one behind the other. -/
structure WellFormed (tree : SyntaxTree) : Prop extends tree.Arena where
  held_once : ∀ id < tree.size, ((List.range tree.size).flatMap tree.childrenOf).count id =
    if tree.root = some id then 0 else 1
  reachable : ∀ id < tree.size, ∃ root ∈ tree.root, tree.Within root id
  map_of_pairs : ∀ n ∈ tree.nodes, n.pairs ≠ [] → n.isMap = true
  sequence_of_items : ∀ n ∈ tree.nodes, n.items ≠ [] → n.isSequence = true
  child_inside : ∀ id, ∀ child ∈ tree.childrenOf id,
    (tree.spanOf child).Inside (tree.spanOf id)
  siblings_apart : ∀ id, (tree.childrenOf id).Pairwise fun a b =>
    (tree.spanOf a).stop ≤ (tree.spanOf b).start

/-! What stands at a number -/

section Stands
variable {id : Nat} {parent : Option Nat} {o : Outline}

theorem node?_of_stands (h : Stands top id parent o) :
    (ofOutline source top).node? id = some (o.node source id parent) := by
  simpa [node?, ofOutline] using h.getElem?

theorem exists_stands (h : id < (ofOutline source top).size) :
    ∃ parent o, Stands top id parent o := by
  have hlt : id < 0 + top.weight := by
    simpa [size, ofOutline, Outline.length_listing] using h
  exact Stands.top.exists_of_lt (Nat.zero_le id) hlt

theorem exists_of_mem_nodes {n : SyntaxNode} (h : n ∈ (ofOutline source top).nodes) :
    ∃ id parent o, Stands top id parent o ∧ n = o.node source id parent := by
  obtain ⟨id, hid, rfl⟩ := Array.mem_iff_getElem.mp h
  obtain ⟨parent, o, hstands⟩ := exists_stands hid
  have hnode := Array.getElem?_eq_getElem hid
  exact ⟨id, parent, o, hstands, Option.some.inj (hnode.symm.trans (node?_of_stands hstands))⟩

theorem childrenOf_of_stands (h : Stands top id parent o) :
    (ofOutline source top).childrenOf id = itemIds (id + 1) o.parts := by
  simpa [childrenOf, pairsOf, itemsOf, node?_of_stands h] using
    Outline.node_children id parent o

theorem parentOf_of_stands (h : Stands top id parent o) :
    (ofOutline source top).parentOf id = parent := by
  rw [parentOf, node?_of_stands h]
  rfl

theorem spanOf_of_stands (h : Stands top id parent o) :
    (ofOutline source top).spanOf id = source.span o.bytes := by
  rw [spanOf, node?_of_stands h]
  rfl

theorem lt_size_of_stands (h : Stands top id parent o) : id < (ofOutline source top).size :=
  (Array.getElem?_eq_some_iff.mp (node?_of_stands h)).1

theorem mem_childrenOf_of_numbered (h : Stands top id parent o) {q : Nat × Outline}
    (hq : q ∈ numbered (id + 1) o.parts) : q.1 ∈ (ofOutline source top).childrenOf id := by
  rw [childrenOf_of_stands h, ← Outline.numbered_fst]
  exact List.mem_map_of_mem hq

theorem within_of_stands (h : Stands top id parent o) : (ofOutline source top).Within 0 id := by
  induction h with
  | top => exact .refl
  | part h hq ih => exact ih.child (mem_childrenOf_of_numbered h hq)

end Stands

theorem exists_of_child {id child : Nat} (h : child ∈ (ofOutline source top).childrenOf id) :
    ∃ parent o, Stands top id parent o ∧ ∃ q ∈ numbered (id + 1) o.parts, q.1 = child := by
  have hlt : id < (ofOutline source top).size := by
    by_contra hge
    rw [childrenOf_of_size_le (Nat.le_of_not_lt hge)] at h
    cases h
  obtain ⟨parent, o, hstands⟩ := exists_stands hlt
  rw [childrenOf_of_stands hstands, ← Outline.numbered_fst] at h
  exact ⟨parent, o, hstands, List.mem_map.mp h⟩

/-! The whole tree -/

theorem ofOutline_arena (source : Source) (top : Outline) : (ofOutline source top).Arena where
  root_node := by
    rintro root ⟨⟩
    rw [node?_of_stands .top]
    rfl
  lt_child id child hc := by
    obtain ⟨parent, o, hstands, -⟩ := exists_of_child hc
    rw [childrenOf_of_stands hstands] at hc
    exact Outline.le_of_mem_itemIds hc
  parent_child id child hc := by
    obtain ⟨parent, o, hstands, q, hq, rfl⟩ := exists_of_child hc
    exact parentOf_of_stands (hstands.part hq)
  nodup_children id := by
    by_cases hid : id < (ofOutline source top).size
    · obtain ⟨parent, o, hstands⟩ := exists_stands hid
      rw [childrenOf_of_stands hstands]
      exact (Outline.itemIds_increasing (id + 1) o.parts).imp Nat.ne_of_lt
    · rw [childrenOf_of_size_le (Nat.le_of_not_lt hid)]
      exact List.nodup_nil

theorem Arena.nodup_held {tree : SyntaxTree} (h : tree.Arena) :
    ((List.range tree.size).flatMap tree.childrenOf).Nodup := by
  refine List.nodup_flatMap.mpr ⟨fun id _ => h.nodup_children id, ?_⟩
  refine List.nodup_range.imp fun {a b} hab => ?_
  intro child ha hb
  exact hab (h.parent_unique ha hb)

theorem ofOutline_held_once {id : Nat} (hid : id < (ofOutline source top).size) :
    ((List.range (ofOutline source top).size).flatMap (ofOutline source top).childrenOf).count id =
      if (ofOutline source top).root = some id then 0 else 1 := by
  have harena := ofOutline_arena source top
  split
  · next hroot =>
    rw [List.count_eq_zero]
    intro hmem
    obtain ⟨a, -, ha⟩ := List.mem_flatMap.mp hmem
    obtain rfl : 0 = id := Option.some.inj hroot
    exact Nat.not_lt_zero a (harena.lt_child a 0 ha)
  · next hroot =>
    rw [harena.nodup_held.count, if_pos]
    obtain ⟨parent, o, hstands⟩ := exists_stands hid
    cases hstands with
    | top => exact absurd rfl hroot
    | @part a _ _ q h hq =>
      exact List.mem_flatMap.mpr ⟨a, List.mem_range.mpr (lt_size_of_stands h),
        mem_childrenOf_of_numbered h hq⟩

theorem ofOutline_wellFormed (hplace : Monotone source.place) (htop : top.Ordered) :
    (ofOutline source top).WellFormed where
  toArena := ofOutline_arena source top
  held_once _ hid := ofOutline_held_once hid
  reachable id hid := by
    obtain ⟨parent, o, hstands⟩ := exists_stands hid
    exact ⟨0, rfl, within_of_stands hstands⟩
  map_of_pairs n _ hpairs := by
    cases hc : n.content <;> simp_all [SyntaxNode.pairs, SyntaxNode.isMap]
  sequence_of_items n _ hitems := by
    cases hc : n.content <;> simp_all [SyntaxNode.items, SyntaxNode.isSequence]
  child_inside id child hc := by
    obtain ⟨parent, o, hstands, q, hq, rfl⟩ := exists_of_child hc
    obtain ⟨_, hinside, _, _⟩ := hstands.ordered htop
    rw [spanOf_of_stands hstands, spanOf_of_stands (hstands.part hq)]
    exact Source.span_inside hplace (hinside q.2 (Outline.mem_of_numbered hq))
  siblings_apart id := by
    by_cases hid : id < (ofOutline source top).size
    · obtain ⟨parent, o, hstands⟩ := exists_stands hid
      obtain ⟨_, _, hapart, _⟩ := hstands.ordered htop
      rw [← Outline.numbered_snd (id + 1) o.parts, List.pairwise_map] at hapart
      rw [childrenOf_of_stands hstands, ← Outline.numbered_fst, List.pairwise_map]
      refine hapart.imp_of_mem fun {a b} ha hb hab => ?_
      rw [spanOf_of_stands (hstands.part ha), spanOf_of_stands (hstands.part hb)]
      exact hplace hab
    · rw [childrenOf_of_size_le (Nat.le_of_not_lt hid)]
      exact .nil

theorem empty_wellFormed : SyntaxTree.empty.WellFormed := by
  have hchildren (id : Nat) : SyntaxTree.empty.childrenOf id = [] :=
    childrenOf_of_size_le (Nat.zero_le id)
  exact {
    root_node := by simp [empty]
    lt_child := by simp [hchildren]
    parent_child := by simp [hchildren]
    nodup_children := by simp [hchildren]
    held_once := by simp [size, empty]
    reachable := by simp [size, empty]
    map_of_pairs := by simp [empty]
    sequence_of_items := by simp [empty]
    child_inside := by simp [hchildren]
    siblings_apart := by simp [hchildren] }

/-- Whatever the text, the numbers in its tree are sound. -/
theorem ofText_arena (text : List Char) : (ofText text).Arena := by
  unfold ofText ofConcrete
  split
  · exact empty_wellFormed.toArena
  · next outline _ => exact ofOutline_arena (.ofText text) outline

/-- The tree that is made of a concrete tree is well-formed, whatever the concrete tree holds. -/
theorem ofConcrete_wellFormed (text : List Char) {concrete : Yaml.Concrete}
    (h : concrete.Sound) : (ofConcrete text concrete).WellFormed := by
  have hplace : Monotone (Source.ofText text).place := by
    rw [Source.place_ofText]
    exact Text.charOffset_mono text
  unfold ofConcrete
  split
  · exact empty_wellFormed
  · next outline ho =>
    exact ofOutline_wellFormed hplace (Outline.ofConcrete?_fits concrete h ho).ordered

def brokenText : List Char := "é: !s # n\ny: \x7bk, : 1, @\x7d\nz:\nw: [p: 2, *q]\n".toList

def plainNode (role : Yaml.Concrete.Role) (bytes : Span) : Yaml.Concrete :=
  .node .flowNode role bytes [.node (.scalar .plain) .none bytes []]

def broken : Yaml.Concrete :=
  .node .stream .none ⟨0, 43⟩ [.node .error .none ⟨0, 43⟩ [.node .blockNode .none ⟨0, 42⟩ [
    .node .mapping .none ⟨0, 42⟩ [
      .node .pair .none ⟨0, 6⟩ [
        plainNode .key ⟨0, 2⟩,
        .node .flowNode .value ⟨4, 6⟩ [.node .tag .none ⟨4, 6⟩ []]],
      .node .comment .none ⟨7, 10⟩ [],
      .node .pair .none ⟨11, 25⟩ [
        plainNode .key ⟨11, 12⟩,
        .node .flowNode .value ⟨14, 25⟩ [.node .mapping .none ⟨14, 25⟩ [
          plainNode .none ⟨15, 16⟩,
          .node .pair .none ⟨18, 21⟩ [plainNode .value ⟨20, 21⟩],
          .node .error .none ⟨23, 24⟩ []]]],
      .node .pair .none ⟨26, 28⟩ [plainNode .key ⟨26, 27⟩],
      .node .pair .none ⟨29, 42⟩ [
        plainNode .key ⟨29, 30⟩,
        .node .flowNode .value ⟨32, 42⟩ [.node .sequence .none ⟨32, 42⟩ [
          .node .pair .none ⟨33, 37⟩ [plainNode .key ⟨33, 34⟩, plainNode .value ⟨36, 37⟩],
          .node .flowNode .none ⟨39, 41⟩ [.node .alias .none ⟨39, 41⟩ []]]]]]]]]

theorem ofConcrete_wellFormed_broken :
    broken.Sound ∧
    (ofConcrete brokenText broken).nodes.toList.map (·.content) = [
      .map [(1, 2), (3, 4), (7, 8), (9, 10)],
      .scalar .plain "é" "é", .scalar .empty "" "",
      .scalar .plain "y" "y", .map [(5, 6)], .scalar .plain "k" "k", .scalar .empty "" "",
      .scalar .plain "z" "z", .scalar .empty "" "",
      .scalar .plain "w" "w", .sequence [11, 14], .map [(12, 13)], .scalar .plain "p" "p",
      .scalar .plain "2" "2", .scalar .plain "*q" "*q"] ∧
    (ofConcrete brokenText broken).WellFormed := by
  have hsound : broken.Sound := by decide
  exact ⟨hsound, by decide +kernel, ofConcrete_wellFormed brokenText hsound⟩

end SyntaxTree
end WorkflowLint
