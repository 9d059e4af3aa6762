/-! Properties of characters, as tables. -/
namespace WorkflowLint.Text

/-- A property of code points, as the code points at which it begins and ceases to hold, in
turn and in increasing order. -/
structure Property where
  boundaries : List Nat

def Property.holds (p : Property) (c : Char) : Bool :=
  (p.boundaries.takeWhile (· ≤ c.toNat)).length % 2 == 1

end WorkflowLint.Text
