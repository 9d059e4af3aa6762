import WorkflowLint.Expr.Eval

/-! Comparison of values. Except for two arrays or two objects, which are compared part by part and
have no order, to be equal is to be neither below nor above the other. -/
namespace WorkflowLint

namespace Binary64

theorem compare?_swap (x y : Binary64) : y.compare? x = (x.compare? y).map Ordering.swap := by
  cases x with
  | nan => cases y <;> rfl
  | infinite m =>
    cases y with
    | nan => rfl
    | finite n b => cases m <;> rfl
    | infinite n => cases m <;> cases n <;> rfl
  | finite m a =>
    cases y with
    | nan => rfl
    | infinite n => cases n <;> rfl
    | finite n b => exact congrArg some Std.OrientedCmp.eq_swap

theorem same_self {x : Binary64} (h : x.isNaN = false) : x.same x = true := by
  cases x with
  | nan => cases h
  | infinite n => simp [same, compare?]
  | finite n a => simp [same, compare?, Std.ReflCmp.compare_self]

theorem same_comm (x y : Binary64) : x.same y = y.same x := by
  rw [same, same, compare?_swap x y]
  cases x.compare? y with
  | none => rfl
  | some o => cases o <;> rfl

theorem isNaN_of_isFinite {x : Binary64} (h : x.isFinite = true) : x.isNaN = false := by
  cases x with
  | finite n a => rfl
  | infinite | nan => cases h

end Binary64

namespace JsonNumber

def isFinite : JsonNumber → Bool
  | .int _ => true
  | .float x => x.isFinite

theorem isNaN_toBinary64 {n : JsonNumber} (h : n.isFinite = true) : n.toBinary64.isNaN = false := by
  cases n with
  | int n => exact Binary64.isNaN_ofInt n
  | float x => exact Binary64.isNaN_of_isFinite h

theorem same_self {n : JsonNumber} (h : n.isFinite = true) : n.same n = true := by
  cases n with
  | int n => exact beq_self_eq_true n
  | float x => exact Binary64.same_self (Binary64.isNaN_of_isFinite h)

theorem same_comm (m n : JsonNumber) : m.same n = n.same m := by
  cases m with
  | int m =>
    cases n with
    | int n => exact Bool.beq_comm
    | float y => rfl
  | float x =>
    cases n with
    | int n => rfl
    | float y => exact Binary64.same_comm x y

end JsonNumber

namespace Json

/-! Part by part -/

mutual

def isFinite : Json → Bool
  | .num n => n.isFinite
  | .arr items => itemsFinite items
  | .obj fields => fieldsFinite fields
  | _ => true

def itemsFinite : List Json → Bool
  | [] => true
  | a :: as => isFinite a && itemsFinite as

def fieldsFinite : List (String × Json) → Bool
  | [] => true
  | (_, a) :: as => isFinite a && fieldsFinite as

end

mutual

theorem same_self {a : Json} (h : a.isFinite = true) : a.same a = true := by
  cases a with
  | null => rfl
  | bool b => simp [same]
  | num n => exact JsonNumber.same_self h
  | str s => simp [same]
  | arr items => exact sameItems_self h
  | obj fields => exact sameFields_self h

theorem sameItems_self {as : List Json} (h : itemsFinite as = true) : sameItems as as = true := by
  cases as with
  | nil => rfl
  | cons a as =>
    simp only [itemsFinite, Bool.and_eq_true] at h
    simp only [sameItems, Bool.and_eq_true]
    exact ⟨same_self h.1, sameItems_self h.2⟩

theorem sameFields_self {as : List (String × Json)} (h : fieldsFinite as = true) :
    sameFields as as = true := by
  cases as with
  | nil => rfl
  | cons p as =>
    obtain ⟨name, a⟩ := p
    simp only [fieldsFinite, Bool.and_eq_true] at h
    simp only [sameFields, Bool.and_eq_true]
    exact ⟨⟨beq_self_eq_true name, same_self h.1⟩, sameFields_self h.2⟩

end

mutual

theorem same_comm (a b : Json) : a.same b = b.same a := by
  cases a <;> cases b <;> try rfl
  · exact Bool.beq_comm
  · exact JsonNumber.same_comm _ _
  · exact Bool.beq_comm
  · exact sameItems_comm _ _
  · exact sameFields_comm _ _

theorem sameItems_comm (as bs : List Json) : sameItems as bs = sameItems bs as := by
  cases as with
  | nil => cases bs <;> rfl
  | cons a as =>
    cases bs with
    | nil => rfl
    | cons b bs => rw [sameItems, sameItems, same_comm a b, sameItems_comm as bs]

theorem sameFields_comm (as bs : List (String × Json)) : sameFields as bs = sameFields bs as := by
  cases as with
  | nil => cases bs <;> rfl
  | cons p as =>
    cases bs with
    | nil => rfl
    | cons q bs =>
      rw [sameFields, sameFields, same_comm p.2 q.2, sameFields_comm as bs,
        Bool.beq_comm (a := p.1)]

end

/-! Values of all kinds -/

def bothParted : Json → Json → Bool
  | .arr _, .arr _ | .obj _, .obj _ => true
  | _, _ => false

theorem looseCompare?_eq_numbers {a b : Json} (h : ∀ x y, a = .str x → b ≠ .str y) :
    a.looseCompare? b = a.toNumber.compare? b.toNumber := by
  unfold looseCompare?
  split
  next x y => exact absurd rfl (h x y rfl)
  next => rfl

theorem looseCompare?_swap (a b : Json) :
    b.looseCompare? a = (a.looseCompare? b).map Ordering.swap := by
  by_cases htexts : ∃ x y, a = .str x ∧ b = .str y
  · obtain ⟨x, y, rfl, rfl⟩ := htexts
    exact congrArg some Std.OrientedCmp.eq_swap
  · have hab : ∀ x y, a = .str x → b ≠ .str y := fun x y ha hb => htexts ⟨x, y, ha, hb⟩
    have hba : ∀ y x, b = .str y → a ≠ .str x := fun y x hb ha => htexts ⟨x, y, ha, hb⟩
    rw [looseCompare?_eq_numbers hab, looseCompare?_eq_numbers hba]
    exact Binary64.compare?_swap _ _

/-- Equality can be read off the order, whatever the kinds of the two values. -/
theorem looseEq_eq_compare {a b : Json} (h : bothParted a b = false) :
    a.looseEq b = (a.looseCompare? b == some .eq) := by
  cases a with
  | null => cases b <;> rfl
  | bool m =>
    cases b with
    | bool n => cases m <;> cases n <;> decide +kernel
    | _ => rfl
  | num m => cases b <;> rfl
  | str x =>
    cases b with
    | str y =>
      simp only [looseEq, looseCompare?]
      rw [Bool.eq_iff_iff, beq_iff_eq, beq_iff_eq, Option.some.injEq,
        Std.LawfulEqCmp.compare_eq_iff_eq]
    | _ => rfl
  | arr items =>
    cases b with
    | arr items' => cases h
    | _ => rfl
  | obj fields =>
    cases b with
    | obj fields' => cases h
    | _ => rfl

theorem looseCompare?_of_bothParted {a b : Json} (h : bothParted a b = true) :
    a.looseCompare? b = none := by
  cases a with
  | arr items => cases b <;> rfl
  | obj fields => cases b <;> rfl
  | _ => cases b <;> cases h

theorem looseEq_of_compare_eq {a b : Json} (h : a.looseCompare? b = some .eq) :
    a.looseEq b = true := by
  cases hp : bothParted a b with
  | true => simp [looseCompare?_of_bothParted hp] at h
  | false => simp [looseEq_eq_compare hp, h]

theorem bothParted_comm (a b : Json) : bothParted a b = bothParted b a := by
  cases a <;> cases b <;> rfl

theorem looseEq_of_bothParted {a b : Json} (h : bothParted a b = true) :
    a.looseEq b = a.same b := by
  cases a with
  | arr items =>
    cases b with
    | arr items' => rfl
    | _ => cases h
  | obj fields =>
    cases b with
    | obj fields' => rfl
    | _ => cases h
  | _ => cases b <;> cases h

theorem looseEq_comm (a b : Json) : a.looseEq b = b.looseEq a := by
  cases hp : bothParted a b with
  | true =>
    rw [looseEq_of_bothParted hp, looseEq_of_bothParted (bothParted_comm a b ▸ hp), same_comm]
  | false =>
    rw [looseEq_eq_compare hp, looseEq_eq_compare (bothParted_comm a b ▸ hp),
      looseCompare?_swap a b]
    cases a.looseCompare? b with
    | none => rfl
    | some o => cases o <;> rfl

theorem looseEq_self {a : Json} (h : a.isFinite = true) : a.looseEq a = true := by
  cases a with
  | null => rfl
  | bool b => exact beq_self_eq_true b
  | num n => exact Binary64.same_self (JsonNumber.isNaN_toBinary64 h)
  | str s => exact beq_self_eq_true (Text.lowercase s)
  | arr items => exact same_self h
  | obj fields => exact same_self h

end Json

namespace Expr
open Json

theorem compareBy_exclusive (a b : Json) :
    [compareBy .lt a b, compareBy .eq a b, compareBy .gt a b].count true ≤ 1 := by
  have heq : a.looseEq b = true → a.looseCompare? b = none ∨ a.looseCompare? b = some .eq := by
    intro h
    cases hp : bothParted a b with
    | true => exact .inl (looseCompare?_of_bothParted hp)
    | false => exact .inr (by simpa [looseEq_eq_compare hp] using h)
  simp only [compareBy]
  cases he : a.looseEq b with
  | true =>
    obtain hc | hc := heq he <;> rw [hc] <;> decide
  | false =>
    cases a.looseCompare? b with
    | none => decide
    | some o => cases o <;> decide

/-- Equality and order fit together for all kinds of values. -/
theorem comparisons_cohere (a b : Json) :
    a.looseEq b = b.looseEq a ∧
    (a.isFinite = true → a.looseEq a = true) ∧
    b.looseCompare? a = (a.looseCompare? b).map Ordering.swap ∧
    (a.looseCompare? b = some .eq → a.looseEq b = true) ∧
    (a.looseEq b = true → bothParted a b = false → a.looseCompare? b = some .eq) ∧
    [compareBy .lt a b, compareBy .eq a b, compareBy .gt a b].count true ≤ 1 ∧
    (compareBy .le a b = true ↔ compareBy .lt a b = true ∨ a.looseCompare? b = some .eq) := by
  refine ⟨looseEq_comm a b, looseEq_self, looseCompare?_swap a b, looseEq_of_compare_eq, ?_,
    compareBy_exclusive a b, by simp [compareBy]⟩
  intro h hp
  simpa [looseEq_eq_compare hp] using h

theorem comparisons_cohere_hexadecimal :
    (Json.str " 0x10 ").isFinite = true ∧ bothParted (.str " 0x10 ") (.num (.int 16)) = false ∧
    (Json.str " 0x10 ").looseEq (.str " 0x10 ") = true ∧
    (Json.str " 0x10 ").looseEq (.num (.int 16)) = true ∧
    (Json.str " 0x10 ").looseCompare? (.num (.int 16)) = some .eq ∧
    compareBy .le (.str " 0x10 ") (.num (.int 16)) = true := by
  obtain ⟨-, hself, -, -, hcompare, -, hle⟩ :=
    comparisons_cohere (.str " 0x10 ") (.num (.int 16))
  have hequal : (Json.str " 0x10 ").looseEq (.num (.int 16)) = true := by decide +kernel
  have hcmp := hcompare hequal rfl
  exact ⟨rfl, rfl, hself rfl, hequal, hcmp, hle.mpr (.inr hcmp)⟩

end Expr
end WorkflowLint
