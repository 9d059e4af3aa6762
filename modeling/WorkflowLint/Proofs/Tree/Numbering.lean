import WorkflowLint.Proofs.Text.Offset
import WorkflowLint.Proofs.Tree.Arena
import WorkflowLint.Proofs.Tree.Outline
import WorkflowLint.Tree.Build

/-! The numbers of the nodes of a tree. Every part of an outline stands at one number, the numbers
leave no gap, and what stands there is all that the tree holds. -/
namespace WorkflowLint.Tree.Outline
variable {source : Source} {top : Outline}

/-! Keys and values are numbered as items are. -/

theorem weightOfPairs_eq (pairs : List (Outline × Outline)) :
    weightOfPairs pairs = weightOfItems (pairs.flatMap fun (k, v) => [k, v]) := by
  induction pairs with
  | nil => rfl
  | cons p rest ih =>
    simp only [weightOfPairs, ih, List.flatMap_cons, List.cons_append, List.nil_append,
      weightOfItems]
    omega

theorem pairIds_eq (id : Nat) (pairs : List (Outline × Outline)) :
    (pairIds id pairs).flatMap (fun (k, v) => [k, v]) =
      itemIds id (pairs.flatMap fun (k, v) => [k, v]) := by
  induction pairs generalizing id with
  | nil => rfl
  | cons p rest ih =>
    simp [pairIds, itemIds, ih]

theorem listingOfPairs_eq (id parent : Nat) (pairs : List (Outline × Outline)) :
    listingOfPairs source id parent pairs =
      listingOfItems source id parent (pairs.flatMap fun (k, v) => [k, v]) := by
  induction pairs generalizing id with
  | nil => rfl
  | cons p rest ih =>
    simp [listingOfPairs, listingOfItems, ih]

def node (source : Source) (id : Nat) (parent : Option Nat) (o : Outline) : SyntaxNode where
  content := match o with
    | .nothing _ => .scalar .empty "" ""
    | .scalar style bytes => decode style (source.slice (source.span bytes))
    | .sequence items _ => .sequence (itemIds (id + 1) items)
    | .map pairs _ => .map (pairIds (id + 1) pairs)
  span := source.span o.bytes
  parent := parent

theorem weight_eq (o : Outline) : o.weight = weightOfItems o.parts + 1 := by
  cases o with
  | nothing | scalar | sequence => rfl
  | map pairs bytes => rw [weight, weightOfPairs_eq, parts]

theorem listing_eq (id : Nat) (parent : Option Nat) (o : Outline) :
    o.listing source id parent =
      o.node source id parent :: listingOfItems source (id + 1) id o.parts := by
  cases o with
  | nothing | scalar | sequence => rfl
  | map pairs bytes =>
    rw [listing, listingOfPairs_eq]
    rfl

theorem node_children (id : Nat) (parent : Option Nat) (o : Outline) :
    (o.node source id parent).pairs.flatMap (fun (k, v) => [k, v]) ++
      (o.node source id parent).items = itemIds (id + 1) o.parts := by
  cases o with
  | nothing | sequence => rfl
  | scalar style => cases style <;> rfl
  | map pairs bytes =>
    have hitems : (node source id parent (.map pairs bytes)).items = [] := rfl
    rw [hitems, List.append_nil]
    exact pairIds_eq (id + 1) pairs

theorem weight_pos (o : Outline) : 0 < o.weight := by
  rw [weight_eq]
  exact Nat.succ_pos _

theorem weight_le_of_mem {o : Outline} {os : List Outline} (h : o ∈ os) :
    o.weight ≤ weightOfItems os := by
  induction os with
  | nil => cases h
  | cons p rest ih =>
    rw [weightOfItems]
    obtain rfl | h := List.mem_cons.mp h
    · exact Nat.le_add_right _ _
    · exact Nat.le_trans (ih h) (Nat.le_add_left _ _)

/-- What holds of an outline if it holds of its parts, holds of all outlines. -/
theorem parts_induction {motive : Outline → Prop}
    (h : ∀ o, (∀ p ∈ o.parts, motive p) → motive o) (o : Outline) : motive o := by
  induction hw : o.weight using Nat.strongRecOn generalizing o with
  | _ w ih =>
    refine h o fun p hp => ih p.weight ?_ p rfl
    have hle := weight_le_of_mem hp
    rw [← hw, weight_eq o]
    omega

/-! Numbers -/

theorem length_itemIds (id : Nat) (os : List Outline) : (itemIds id os).length = os.length := by
  induction os generalizing id with
  | nil => rfl
  | cons o rest ih => simp [itemIds, ih]

theorem le_of_mem_itemIds {id x : Nat} {os : List Outline} (h : x ∈ itemIds id os) : id ≤ x := by
  induction os generalizing id with
  | nil => cases h
  | cons o rest ih =>
    obtain rfl | h := List.mem_cons.mp h
    · exact Nat.le_refl _
    · exact Nat.le_trans (Nat.le_add_right _ _) (ih h)

theorem itemIds_increasing (id : Nat) (os : List Outline) : (itemIds id os).Pairwise (· < ·) := by
  induction os generalizing id with
  | nil => exact .nil
  | cons o rest ih =>
    refine List.pairwise_cons.mpr ⟨fun x hx => ?_, ih _⟩
    have hpos := o.weight_pos
    have hle := le_of_mem_itemIds hx
    omega

def numbered (id : Nat) (os : List Outline) : List (Nat × Outline) := (itemIds id os).zip os

theorem numbered_fst (id : Nat) (os : List Outline) : (numbered id os).map (·.1) = itemIds id os :=
  List.map_fst_zip (Nat.le_of_eq (length_itemIds id os))

theorem numbered_snd (id : Nat) (os : List Outline) : (numbered id os).map (·.2) = os :=
  List.map_snd_zip (Nat.le_of_eq (length_itemIds id os).symm)

theorem mem_of_numbered {id : Nat} {os : List Outline} {q : Nat × Outline}
    (hq : q ∈ numbered id os) : q.2 ∈ os := by
  rw [← numbered_snd id os]
  exact List.mem_map_of_mem hq

theorem numbered_cons (id : Nat) (o : Outline) (rest : List Outline) :
    numbered id (o :: rest) = (id, o) :: numbered (id + o.weight) rest := rfl

theorem exists_numbered {id x : Nat} {os : List Outline} (hle : id ≤ x)
    (hlt : x < id + weightOfItems os) : ∃ q ∈ numbered id os, q.1 ≤ x ∧ x < q.1 + q.2.weight := by
  induction os generalizing id with
  | nil =>
    rw [weightOfItems] at hlt
    omega
  | cons o rest ih =>
    rw [numbered_cons]
    by_cases hx : x < id + o.weight
    · exact ⟨(id, o), List.mem_cons_self, hle, hx⟩
    · have hle' : id + o.weight ≤ x := Nat.le_of_not_lt hx
      have hlt' : x < id + o.weight + weightOfItems rest := by
        rw [weightOfItems] at hlt
        omega
      obtain ⟨q, hq, hbounds⟩ := ih hle' hlt'
      exact ⟨q, List.mem_cons_of_mem _ hq, hbounds⟩

/-! Nodes -/

theorem length_listing (id : Nat) (parent : Option Nat) (o : Outline) :
    (o.listing source id parent).length = o.weight := by
  induction o using parts_induction generalizing id parent with
  | h o ih =>
    have hitems (os : List Outline) (first : Nat) (hos : ∀ p ∈ os, p ∈ o.parts) :
        (listingOfItems source first id os).length = weightOfItems os := by
      induction os generalizing first with
      | nil => rfl
      | cons p rest ihrest =>
        rw [List.forall_mem_cons] at hos
        rw [listingOfItems, List.length_append, ih p hos.1, ihrest _ hos.2, weightOfItems]
    rw [listing_eq, List.length_cons, hitems _ _ fun _ hp => hp, weight_eq]

/-- The part `o` of an outline has the number `id`, and what holds it has the number `parent`. -/
inductive Stands (top : Outline) : Nat → Option Nat → Outline → Prop
  | top : Stands top 0 none top
  | part {id : Nat} {parent : Option Nat} {o : Outline} {q : Nat × Outline} :
      Stands top id parent o → q ∈ numbered (id + 1) o.parts → Stands top q.1 (some id) q.2

theorem listing_of_mem_numbered {nodes : List SyntaxNode} {id parent : Nat} {os : List Outline}
    {q : Nat × Outline} (h : listingOfItems source id parent os <+: nodes.drop id)
    (hq : q ∈ numbered id os) : q.2.listing source q.1 (some parent) <+: nodes.drop q.1 := by
  induction os generalizing id with
  | nil => cases hq
  | cons o rest ih =>
    rw [numbered_cons] at hq
    rw [listingOfItems] at h
    obtain rfl | hq := List.mem_cons.mp hq
    · exact (List.prefix_append _ _).trans h
    · refine ih ?_ hq
      obtain ⟨after, hafter⟩ := h
      refine ⟨after, ?_⟩
      have hdrop := congrArg (List.drop o.weight) hafter
      rw [List.append_assoc, List.drop_left' (length_listing id (some parent) o),
        List.drop_drop] at hdrop
      exact hdrop

theorem Stands.listing {id : Nat} {parent : Option Nat} {o : Outline} (h : Stands top id parent o) :
    o.listing source id parent <+: (top.listing source 0 none).drop id := by
  induction h with
  | top => exact List.prefix_rfl
  | @part id parent o q _ hq ih =>
    refine listing_of_mem_numbered ?_ hq
    obtain ⟨after, hafter⟩ := ih
    refine ⟨after, ?_⟩
    rw [listing_eq] at hafter
    rw [← List.tail_drop, ← hafter]
    rfl

theorem Stands.getElem? {id : Nat} {parent : Option Nat} {o : Outline}
    (h : Stands top id parent o) :
    (top.listing source 0 none)[id]? = some (o.node source id parent) := by
  have hlisting : o.listing source id parent <+: (top.listing source 0 none).drop id := h.listing
  obtain ⟨after, hafter⟩ := hlisting
  rw [listing_eq] at hafter
  rw [← List.head?_drop, ← hafter]
  rfl

theorem Stands.exists_of_lt {id x : Nat} {parent : Option Nat} {o : Outline}
    (h : Stands top id parent o) (hle : id ≤ x) (hlt : x < id + o.weight) :
    ∃ parent' o', Stands top x parent' o' := by
  induction o using parts_induction generalizing id parent with
  | h o ih =>
    by_cases hx : x = id
    · exact ⟨parent, o, hx ▸ h⟩
    · have hle' : id + 1 ≤ x := by omega
      have hlt' : x < id + 1 + weightOfItems o.parts := by
        rw [weight_eq] at hlt
        omega
      obtain ⟨q, hq, hqle, hqlt⟩ := exists_numbered hle' hlt'
      exact ih q.2 (mem_of_numbered hq) (h.part hq) hqle hqlt

theorem Stands.ordered {id : Nat} {parent : Option Nat} {o : Outline} (h : Stands top id parent o)
    (htop : top.Ordered) : o.Ordered := by
  induction h with
  | top => exact htop
  | @part id parent o q _ hq ih =>
    obtain ⟨_, _, _, hparts⟩ := ih
    exact hparts q.2 (mem_of_numbered hq)

end WorkflowLint.Tree.Outline
