import WorkflowLint.Proofs.Check.Structure
import WorkflowLint.Proofs.Tree.Value

/-! The value of a document at the places of a walk. The walk takes the first one of equal keys and
the value has the last one, so they agree on a node unless a key on the way to it is repeated. -/
namespace WorkflowLint.Check
open Yaml (Value)
variable {d : Document} {schema : Shape} {root : Nat}

theorem Call.Step.lastAt? {c c' : Call} (hs : Call.Step d c c')
    (hu : d.tree.Unrepeated c'.id) (hc : d.tree.lastAt? root c.path = some c.id) :
    d.tree.lastAt? root c'.path = some c'.id := by
  cases hs with
  | choice | lone => exact hc
  | item hn hi hx =>
    rw [Path.withIndex, SyntaxTree.lastAt?_append, hc, Option.bind_some, SyntaxTree.lastAt?,
      SyntaxTree.itemsOf_eq hn hi, hx]
    rfl
  | @value id _ _ _ _ _ _ _ before k v after _ hn hm _ _ =>
    have hp : (k, v) ∈ d.tree.pairsOf id := by
      rw [SyntaxTree.pairsOf_eq hn hm]
      exact List.mem_append_cons_self
    rw [Path.withKey, SyntaxTree.lastAt?_append, hc, Option.bind_some, SyntaxTree.lastAt?,
      SyntaxTree.Unrepeated.find?_pair hu hp]
    rfl

theorem Reached.lastAt? (hr : d.tree.root = some root) {c : Call} (hc : Reached d schema c)
    (hu : d.tree.Unrepeated c.id) : d.tree.lastAt? root c.path = some c.id := by
  induction hc with
  | root hid =>
    obtain rfl := Option.some.inj (hr.symm.trans hid)
    rfl
  | step _ hs ih => exact hs.lastAt? hu (ih (hu.of_within hs.within))

/-- The path of a place leads through the value of the document to the value of the node that has
the last one of equal keys at every mapping. That is the node at the place itself, if no key on the
way to it is repeated. -/
theorem value_at_place (h : d.tree.Arena) (hr : d.tree.root = some root) {c : Call}
    (hc : Reached d schema c) :
    (d.tree.toValue root).at? c.path = (d.tree.lastAt? root c.path).map d.tree.toValue ∧
    (d.tree.Unrepeated c.id →
      (d.tree.toValue root).at? c.path = some (d.tree.toValue c.id)) := by
  refine ⟨SyntaxTree.at?_toValue h root c.path, fun hu => ?_⟩
  rw [SyntaxTree.at?_toValue h, hc.lastAt? hr hu]
  rfl

/-- `a: {x: "1", x: "2"}`, and behind it `b: "u"` and `b: "v"`. -/
def repeatedAside : SyntaxTree where
  nodes := #[
    ⟨.map [(1, 2), (7, 8), (9, 10)], ⟨0, 34⟩, none⟩,
    ⟨.scalar .plain "a" "a", ⟨0, 1⟩, some 0⟩,
    ⟨.map [(3, 4), (5, 6)], ⟨3, 19⟩, some 0⟩,
    ⟨.scalar .plain "x" "x", ⟨4, 5⟩, some 2⟩,
    ⟨.scalar .doubleQuoted "\"1\"" "1", ⟨7, 10⟩, some 2⟩,
    ⟨.scalar .plain "x" "x", ⟨12, 13⟩, some 2⟩,
    ⟨.scalar .doubleQuoted "\"2\"" "2", ⟨15, 18⟩, some 2⟩,
    ⟨.scalar .plain "b" "b", ⟨20, 21⟩, some 0⟩,
    ⟨.scalar .doubleQuoted "\"u\"" "u", ⟨23, 26⟩, some 0⟩,
    ⟨.scalar .plain "b" "b", ⟨27, 28⟩, some 0⟩,
    ⟨.scalar .doubleQuoted "\"v\"" "v", ⟨30, 33⟩, some 0⟩]
  root := some 0

def asideDocument : Document := ⟨repeatedAside, .null, fun _ _ _ => none⟩

def asideShape : Shape := .closedMap [("a", .openMap .scalar), ("b", .scalar)]

theorem value_at_place_aside :
    repeatedAside.Arena ∧ repeatedAside.Unrepeated 2 ∧
    Reached asideDocument asideShape ⟨2, .openMap .scalar, [.key "a"], some 1⟩ ∧
    (repeatedAside.toValue 0).at? [.key "a"] = some (repeatedAside.toValue 2) := by
  have harena : asideDocument.tree.Arena := by decide
  have hcontent : NodeContent.map [(1, 2), (7, 8), (9, 10)] =
    .map ([] ++ (1, 2) :: [(7, 8), (9, 10)]) := rfl
  have hstep : Call.Step asideDocument ⟨0, asideShape, [], none⟩
    ⟨2, .openMap .scalar, Path.withKey [] (repeatedAside.valueOf 1), some 1⟩ :=
    .value rfl hcontent (by simp) rfl
  have hreached : Reached asideDocument asideShape ⟨2, .openMap .scalar, [.key "a"], some 1⟩ :=
    .step (.root rfl) hstep
  have hnear : ∀ m < repeatedAside.size, ∀ p ∈ repeatedAside.pairsOf m, p.2 ≤ 2 →
      ∀ q ∈ repeatedAside.pairsOf m,
        repeatedAside.valueOf q.1 = repeatedAside.valueOf p.1 → q = p := by decide
  have hunrepeated : repeatedAside.Unrepeated 2 := by
    intro m p hp hw
    by_cases hm : m < repeatedAside.size
    · exact hnear m hm p hp (harena.le_of_within hw)
    · have hnone : repeatedAside.node? m = none := by
        simpa [SyntaxTree.node?, SyntaxTree.size] using hm
      simp [SyntaxTree.pairsOf, hnone] at hp
  exact ⟨harena, hunrepeated, hreached, (value_at_place harena rfl hreached).2 hunrepeated⟩

/-- `a: "x"`, and once more `a: "y"`. -/
def keyTwice : SyntaxTree where
  nodes := #[
    ⟨.map [(1, 2), (3, 4)], ⟨0, 14⟩, none⟩,
    ⟨.scalar .plain "a" "a", ⟨0, 1⟩, some 0⟩,
    ⟨.scalar .doubleQuoted "\"x\"" "x", ⟨3, 6⟩, some 0⟩,
    ⟨.scalar .plain "a" "a", ⟨7, 8⟩, some 0⟩,
    ⟨.scalar .doubleQuoted "\"y\"" "y", ⟨10, 13⟩, some 0⟩]
  root := some 0

/-- The walk goes to the first value of a key that is there twice, and the path to it leads to the
second one. -/
theorem repeated_key_differs :
    keyTwice.Arena ∧
    Reached ⟨keyTwice, keyTwice.toValue 0, fun _ _ _ => none⟩ (.openMap .scalar)
      ⟨2, .scalar, [.key "a"], some 1⟩ ∧
    (keyTwice.toValue 0).at? [.key "a"] = some (.str "y") ∧
    (keyTwice.toValue 0).at? [.key "a"] ≠ some (keyTwice.toValue 2) := by
  have harena : keyTwice.Arena := by decide
  have hcontent : NodeContent.map [(1, 2), (3, 4)] = .map ([] ++ (1, 2) :: [(3, 4)]) := rfl
  have hstep : Call.Step ⟨keyTwice, keyTwice.toValue 0, fun _ _ _ => none⟩
    ⟨0, .openMap .scalar, [], none⟩
    ⟨2, .scalar, Path.withKey [] (keyTwice.valueOf 1), some 1⟩ := .value rfl hcontent (by simp) rfl
  have hfirst : keyTwice.toValue 2 = .str "x" := by rw [SyntaxTree.toValue]; rfl
  have hsecond : keyTwice.toValue 4 = .str "y" := by rw [SyntaxTree.toValue]; rfl
  have hat : (keyTwice.toValue 0).at? [.key "a"] = some (.str "y") := by
    rw [SyntaxTree.at?_toValue harena, ← hsecond]
    rfl
  refine ⟨harena, .step (.root rfl) hstep, hat, ?_⟩
  rw [hat, hfirst]
  simp

end WorkflowLint.Check
