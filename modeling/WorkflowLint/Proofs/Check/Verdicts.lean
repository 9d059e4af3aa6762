import WorkflowLint.Proofs.Check.Quoting
import WorkflowLint.Proofs.Marker.Search

/-! One verdict for each marker of a text. It is reached by the expression of the marker alone, and
it stands at the characters of the marker, whatever stands around it and becomes of the others. -/
namespace WorkflowLint
open Text

namespace Marker

/-- The characters of a marker and those before it in a text. A marker without an end takes all that
is left of the text. -/
structure Stands (text : List Char) (m : Marker) (before word : List Char) : Prop where
  there : before ++ word <+: text
  bytes : m.span = ⟨byteLength before, byteLength (before ++ word)⟩
  complete : ∀ source, m.expression? = some source → word = opening ++ source ++ closing
  unterminated : m.expression? = none → opening <+: word ∧ text = before ++ word

theorem Marked.le_start {done rest : List Char} {items : List Marker} (h : Marked done rest items)
    {m : Marker} (hm : m ∈ items) : byteLength done ≤ m.span.start := by
  induction h with
  | nothing => cases hm
  | @complete done gap source after items _ _ _ ih =>
    rcases List.mem_cons.mp hm with rfl | hm
    · simp [around, span, byteLength_append]
    · have hle := ih hm
      simp only [byteLength_append] at hle
      omega
  | unterminated =>
    rw [List.mem_singleton.mp hm]
    simp [span, byteLength_append]

theorem Marked.pairwise {done rest : List Char} {items : List Marker} (h : Marked done rest items) :
    items.Pairwise fun a b => a.span.stop ≤ b.span.start := by
  induction h with
  | nothing => exact .nil
  | complete _ _ hrest ih => exact .cons (fun m hm => hrest.le_start hm) ih
  | unterminated => exact List.pairwise_singleton _ _

end Marker

namespace Check

def verdict (provider : ContextProvider) : Option (List Char) → Except String Expr.Evaluation
  | some source => expression provider source
  | none => .error Expr.invalidExpression

theorem marker_eq_verdict (provider : ContextProvider) (m : Marker) :
    marker provider m = verdict provider m.expression? := by
  cases m <;> rfl

end Check
end WorkflowLint
