import Mathlib.Data.List.Basic
import WorkflowLint.Proofs.Tree.WellFormed
import WorkflowLint.Tree.Value

/-! Paths through the value of a tree. They lead where they lead in the tree itself, if of several
equal keys the last one is taken. -/
namespace WorkflowLint.SyntaxTree
open Yaml (Value)

/-! Mappings that are built key by key -/

def textValue? (entries : List (Value × Value)) (name : String) : Option Value :=
  (entries.find? fun e => e.1.isText name).map (·.2)

theorem get?_map (entries : List (Value × Value)) (name : String) :
    (Value.map entries).get? name = textValue? entries name := rfl

theorem isText_str (s name : String) : (Value.str s).isText name = (s == name) := rfl

theorem isText_iff {name : String} {v : Value} : v.isText name = true ↔ v = .str name := by
  cases v <;> simp [Value.isText]

theorem textValue?_insertValue (entries : List (Value × Value)) (key name : String)
    (value : Value) : textValue? (insertValue entries key value) name =
      if key = name then some value else textValue? entries name := by
  unfold insertValue textValue?
  split
  · next hany =>
    obtain ⟨old, hold, hkey⟩ := List.any_eq_true.mp hany
    have hfst (e : Value × Value) : (if e.1.isText key then (e.1, value) else e).1 = e.1 := by
      split <;> rfl
    simp only [List.find?_map, Function.comp_def, hfst, Option.map_map]
    cases hfind : entries.find? fun e => e.1.isText name with
    | none =>
      have hne : key ≠ name := by
        rintro rfl
        exact absurd hkey (List.find?_eq_none.mp hfind old hold)
      simp [hne]
    | some e =>
      have he : e.1 = .str name := isText_iff.mp (by simpa using List.find?_some hfind)
      by_cases hname : key = name
      · simp [he, hname, isText_str]
      · simp [he, hname, isText_str, Ne.symm hname]
  · next hany =>
    rw [List.find?_append]
    by_cases hname : key = name
    · have hnone : entries.find? (fun e => e.1.isText name) = none := by
        rw [List.find?_eq_none, ← hname]
        simpa using hany
      simp [hnone, hname, isText_str]
    · simp [hname, isText_str]

theorem textValue?_foldl {α : Type} (name : α → String) (value : α → Value) (pairs : List α)
    (entries : List (Value × Value)) (wanted : String) :
    textValue? (pairs.foldl (fun es p => insertValue es (name p) (value p)) entries) wanted =
      ((pairs.reverse.find? (name · == wanted)).map value).or (textValue? entries wanted) := by
  induction pairs generalizing entries with
  | nil => simp
  | cons p pairs ih =>
    rw [List.foldl_cons, ih, textValue?_insertValue, List.reverse_cons, List.find?_append]
    cases hfind : pairs.reverse.find? (name · == wanted) with
    | some q => simp
    | none => by_cases hp : name p = wanted <;> simp [hp]

def TextKeys (entries : List (Value × Value)) : Prop := ∀ e ∈ entries, ∃ key, e.1 = .str key

theorem TextKeys.insertValue {entries : List (Value × Value)} (h : TextKeys entries) (key : String)
    (value : Value) : TextKeys (SyntaxTree.insertValue entries key value) := by
  unfold SyntaxTree.insertValue
  split
  · intro e he
    obtain ⟨old, hold, rfl⟩ := List.mem_map.mp he
    split
    · exact h old hold
    · exact h old hold
  · intro e he
    obtain he | he := List.mem_append.mp he
    · exact h e he
    · exact ⟨key, by rw [List.mem_singleton.mp he]⟩

theorem textKeys_foldl {α : Type} (name : α → String) (value : α → Value) (pairs : List α)
    {entries : List (Value × Value)} (h : TextKeys entries) :
    TextKeys (pairs.foldl (fun es p => insertValue es (name p) (value p)) entries) := by
  induction pairs generalizing entries with
  | nil => exact h
  | cons p pairs ih => exact ih (h.insertValue (name p) (value p))

/-! One step -/

variable {tree : SyntaxTree}

theorem toValue_map (h : tree.Arena) {id : Nat} {n : SyntaxNode} {pairs : List (Nat × Nat)}
    (hn : tree.node? id = some n) (hc : n.content = .map pairs) :
    tree.toValue id = .map (pairs.foldl (fun es p =>
      insertValue es (tree.valueOf p.1) (tree.toValue p.2)) []) := by
  have hchild (p : Nat × Nat) (hp : p ∈ pairs) : id < p.2 ∧ p.2 < tree.size := by
    have hv := (pair_children hn hc (k := p.1) (v := p.2) hp).2
    exact ⟨h.lt_child id p.2 hv, h.child_lt_size hv⟩
  rw [toValue]
  simp only [hn, Option.map_some, hc]
  congr 1
  refine List.foldl_ext _ _ _ fun es p hp => ?_
  rw [dif_pos (hchild p hp)]

theorem toValue_sequence (h : tree.Arena) {id : Nat} {n : SyntaxNode} {items : List Nat}
    (hn : tree.node? id = some n) (hc : n.content = .sequence items) :
    tree.toValue id = .seq (items.map tree.toValue) := by
  have hchild (x : Nat) (hx : x ∈ items) : id < x ∧ x < tree.size := by
    have hv := item_child hn hc hx
    exact ⟨h.lt_child id x hv, h.child_lt_size hv⟩
  rw [toValue]
  simp only [hn, Option.map_some, hc]
  congr 1
  refine List.map_congr_left fun x hx => ?_
  rw [dif_pos (hchild x hx)]

def Atomic (v : Value) : Prop := v.entries? = none ∧ ∀ i, v.item? i = none

theorem atomic_plainValue (text : String) : Atomic (plainValue text) := by
  unfold plainValue
  split <;> exact ⟨rfl, fun _ => rfl⟩

theorem atomic_toValue {id : Nat}
    (h : ∀ n, tree.node? id = some n → ∃ style raw value, n.content = .scalar style raw value) :
    Atomic (tree.toValue id) := by
  rw [toValue]
  cases hn : tree.node? id with
  | none => exact ⟨rfl, fun _ => rfl⟩
  | some n =>
    obtain ⟨style, raw, value, hc⟩ := h n hn
    simp only [Option.map_some, hc]
    cases style
    case plain => exact atomic_plainValue value
    all_goals exact ⟨rfl, fun _ => rfl⟩

theorem get?_toValue (h : tree.Arena) (id : Nat) (name : String) :
    (tree.toValue id).get? name =
      ((tree.pairsOf id).reverse.find? fun p => tree.valueOf p.1 == name).map
        fun p => tree.toValue p.2 := by
  cases hn : tree.node? id with
  | none =>
    have hatomic : Atomic (tree.toValue id) := atomic_toValue (by simp [hn])
    simp [Value.get?, hatomic.1, pairsOf, hn]
  | some n =>
    cases hc : n.content with
    | map pairs =>
      have hfold := textValue?_foldl (fun p => tree.valueOf p.1) (fun p => tree.toValue p.2)
        pairs [] name
      rw [toValue_map h hn hc, pairsOf_eq hn hc, get?_map, hfold]
      simp [textValue?]
    | sequence items =>
      rw [toValue_sequence h hn hc]
      simp [Value.get?, Value.entries?, Value.untag, pairsOf, hn, SyntaxNode.pairs, hc]
    | scalar style raw value =>
      have hatomic : Atomic (tree.toValue id) := atomic_toValue (by simp [hn, hc])
      simp [Value.get?, hatomic.1, pairsOf, hn, SyntaxNode.pairs, hc]

theorem item?_toValue (h : tree.Arena) (id i : Nat) :
    (tree.toValue id).item? i = (tree.itemsOf id)[i]?.map tree.toValue := by
  cases hn : tree.node? id with
  | none =>
    have hatomic : Atomic (tree.toValue id) := atomic_toValue (by simp [hn])
    simp [hatomic.2, itemsOf, hn]
  | some n =>
    cases hc : n.content with
    | map pairs =>
      rw [toValue_map h hn hc]
      have hempty : TextKeys [] := fun e he => by cases he
      have hkeys := textKeys_foldl (fun p => tree.valueOf p.1) (fun p => tree.toValue p.2) pairs
        hempty
      -- a number is no text
      have hnone : (pairs.foldl (fun es p => insertValue es (tree.valueOf p.1)
          (tree.toValue p.2)) []).find? (fun e => e.1.same (.num (.int i))) = none := by
        rw [List.find?_eq_none]
        intro e he
        obtain ⟨key, hkey⟩ := hkeys e he
        simp [hkey, Value.same]
      simp [Value.item?, Value.untag, hnone, itemsOf, hn, SyntaxNode.items, hc]
    | sequence items =>
      rw [toValue_sequence h hn hc, itemsOf_eq hn hc]
      simp [Value.item?, Value.untag]
    | scalar style raw value =>
      have hatomic : Atomic (tree.toValue id) := atomic_toValue (by simp [hn, hc])
      simp [hatomic.2, itemsOf, hn, SyntaxNode.items, hc]

/-! Whole paths -/

def lastAt? (tree : SyntaxTree) (id : Nat) : Path → Option Nat
  | [] => some id
  | .key name :: rest =>
    ((tree.pairsOf id).reverse.find? fun p => tree.valueOf p.1 == name).bind fun p =>
      lastAt? tree p.2 rest
  | .index i :: rest => (tree.itemsOf id)[i]?.bind fun x => lastAt? tree x rest

theorem lastAt?_append (id : Nat) (p q : Path) :
    tree.lastAt? id (p ++ q) = (tree.lastAt? id p).bind fun x => tree.lastAt? x q := by
  induction p generalizing id with
  | nil => rfl
  | cons s p ih => cases s <;> simp [lastAt?, ih, Option.bind_assoc]

theorem at?_toValue (h : tree.Arena) (id : Nat) (path : Path) :
    (tree.toValue id).at? path = (tree.lastAt? id path).map tree.toValue := by
  induction path generalizing id with
  | nil => rfl
  | cons s path ih =>
    cases s with
    | key name =>
      rw [Value.at?, get?_toValue h, Option.bind_map, lastAt?, Option.map_bind]
      exact congrArg _ (funext fun p => ih p.2)
    | index i =>
      rw [Value.at?, item?_toValue h, Option.bind_map, lastAt?, Option.map_bind]
      exact congrArg _ (funext ih)

/-- No mapping that the node is in has the key above the node a second time. -/
def Unrepeated (tree : SyntaxTree) (id : Nat) : Prop :=
  ∀ m, ∀ p ∈ tree.pairsOf m, tree.Within p.2 id →
    ∀ q ∈ tree.pairsOf m, tree.valueOf q.1 = tree.valueOf p.1 → q = p

theorem Unrepeated.of_within {id inner : Nat} (h : tree.Unrepeated inner)
    (hw : tree.Within id inner) : tree.Unrepeated id :=
  fun m p hp hpw => h m p hp (hpw.trans hw)

theorem Unrepeated.find?_pair {m : Nat} {p : Nat × Nat} (h : tree.Unrepeated p.2)
    (hp : p ∈ tree.pairsOf m) :
    (tree.pairsOf m).reverse.find? (fun q => tree.valueOf q.1 == tree.valueOf p.1) = some p := by
  cases hfind : (tree.pairsOf m).reverse.find? (fun q => tree.valueOf q.1 == tree.valueOf p.1) with
  | none =>
    have hnot := List.find?_eq_none.mp hfind p (List.mem_reverse.mpr hp)
    simp at hnot
  | some q =>
    have hq : q ∈ tree.pairsOf m := List.mem_reverse.mp (List.mem_of_find?_eq_some hfind)
    have hname : tree.valueOf q.1 = tree.valueOf p.1 := by simpa using List.find?_some hfind
    rw [h m p hp .refl q hq hname]

end WorkflowLint.SyntaxTree
