/-! Stretches of a text, counted in whatever unit the text at hand is counted in. -/
namespace WorkflowLint

/-- From the offset `start` up to, and not including, the offset `stop`. -/
structure Span where
  start : Nat
  stop : Nat
deriving DecidableEq, Repr, Inhabited

namespace Span

def point (offset : Nat) : Span := ⟨offset, offset⟩

def shift (s : Span) (n : Nat) : Span := ⟨s.start + n, s.stop + n⟩

/-- Both ends count: a cursor right behind the last character still touches the stretch. -/
def touches (s : Span) (offset : Nat) : Bool :=
  decide (s.start ≤ offset) && decide (offset ≤ s.stop)

structure Inside (a b : Span) : Prop where
  start : b.start ≤ a.start
  le : a.start ≤ a.stop
  stop : a.stop ≤ b.stop

theorem Inside.refl {s : Span} (h : s.start ≤ s.stop) : s.Inside s :=
  ⟨Nat.le_refl _, h, Nat.le_refl _⟩

theorem Inside.trans {a b c : Span} (hab : a.Inside b) (hbc : b.Inside c) : a.Inside c :=
  ⟨Nat.le_trans hbc.start hab.start, hab.le, Nat.le_trans hab.stop hbc.stop⟩

theorem touches_iff (s : Span) (offset : Nat) :
    s.touches offset = true ↔ s.start ≤ offset ∧ offset ≤ s.stop := by
  simp [touches]

end Span
end WorkflowLint
