import Mathlib.Data.Multiset.ZeroCons

/-! Orders in which the work of several parties can be done, if each party keeps to its own order
and nothing else is agreed on. -/
namespace WorkflowLint.Server
variable {α : Type}

/-- All that the parties have to do, one thing at a time. -/
inductive Interleaves : Multiset (List α) → List α → Prop
  | done {ls : Multiset (List α)} : (∀ l ∈ ls, l = []) → Interleaves ls []
  | step {a : α} {rest order : List α} {ls : Multiset (List α)} :
      Interleaves (rest ::ₘ ls) order → Interleaves ((a :: rest) ::ₘ ls) (a :: order)

namespace Interleaves
variable {ls : Multiset (List α)} {l order : List α}

theorem nil_inv (h : Interleaves ls []) : ∀ l ∈ ls, l = [] := by
  cases h with
  | done h => exact h

theorem cons_inv {a : α} (h : Interleaves ls (a :: order)) :
    ∃ rest others, ls = (a :: rest) ::ₘ others ∧ Interleaves (rest ::ₘ others) order := by
  cases h with
  | step h => exact ⟨_, _, rfl, h⟩

theorem mem_iff (h : Interleaves ls order) {a : α} : a ∈ order ↔ ∃ l ∈ ls, a ∈ l := by
  induction h with
  | @done ls hls =>
    constructor
    · intro ha
      cases ha
    · rintro ⟨l, hl, ha⟩
      rw [hls l hl] at ha
      cases ha
  | @step b rest order ls _ ih =>
    rw [List.mem_cons, ih]
    simp only [Multiset.mem_cons, exists_eq_or_imp, List.mem_cons, or_assoc]

theorem alone (h : ∀ l ∈ ls, l = []) (l : List α) : Interleaves (l ::ₘ ls) l := by
  induction l with
  | nil =>
    refine .done fun l hl => ?_
    obtain rfl | hl := Multiset.mem_cons.mp hl
    · rfl
    · exact h l hl
  | cons a l ih => exact .step ih

theorem eq_of_alone (hls : ∀ l ∈ ls, l = []) (h : Interleaves (l ::ₘ ls) order) : order = l := by
  induction order generalizing l with
  | nil => exact (h.nil_inv l (Multiset.mem_cons_self l ls)).symm
  | cons a order ih =>
    obtain ⟨rest, others, heq, h⟩ := h.cons_inv
    obtain ⟨rfl, rfl⟩ | ⟨-, cs, rfl, -⟩ := Multiset.cons_eq_cons.mp heq
    · rw [ih h]
    · have hempty := hls (a :: rest) (Multiset.mem_cons_self _ _)
      cases hempty

theorem add_after {before later more : List α}
    (hadd : ∀ ls, Interleaves ls later → Interleaves (l ::ₘ ls) more)
    (h : Interleaves ls (before ++ later)) : Interleaves (l ::ₘ ls) (before ++ more) := by
  induction before generalizing ls with
  | nil => exact hadd ls h
  | cons a before ih =>
    obtain ⟨rest, others, rfl, hrest⟩ := h.cons_inv
    have hmore := ih hrest
    rw [Multiset.cons_swap] at hmore ⊢
    exact .step hmore

theorem add_last (h : Interleaves ls order) (l : List α) : Interleaves (l ::ₘ ls) (order ++ l) := by
  have hend : Interleaves ls (order ++ []) := by rwa [List.append_nil]
  exact add_after (fun ls hls => alone hls.nil_inv l) hend

/-- One more party, which begins behind `before` and ends behind all others. -/
theorem add_around {before later : List α} (h : Interleaves ls (before ++ later))
    (first last : List α) :
    Interleaves ((first ++ last) ::ₘ ls) (before ++ (first ++ (later ++ last))) := by
  refine add_after (fun ls hls => ?_) h
  induction first with
  | nil => exact hls.add_last last
  | cons a first ih => exact .step ih

theorem exists_order (ls : Multiset (List α)) : ∃ order, Interleaves ls order := by
  induction ls using Multiset.induction_on with
  | empty => exact ⟨[], .done (by simp)⟩
  | cons l ls ih =>
    obtain ⟨order, h⟩ := ih
    exact ⟨order ++ l, h.add_last l⟩

end Interleaves
end WorkflowLint.Server
