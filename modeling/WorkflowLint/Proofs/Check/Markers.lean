import WorkflowLint.Check.Walk
import WorkflowLint.Proofs.Text.Offset

/-! What becomes of the markers of a text: each has a value or is reported, where it stands. -/
namespace WorkflowLint
open Text

namespace Marker

theorem le_of_mem_scan {offset : Nat} {state : Scan} {text : List Char} {m : Marker}
    (hs : ∀ start soFar quoted, state = .inside start soFar quoted → start ≤ offset)
    (hm : m ∈ scan offset state text) : m.span.start ≤ m.span.stop := by
  fun_induction scan offset state text with
  | case1 => cases hm
  | case2 offset start soFar quoted =>
    rw [List.mem_singleton.mp hm]
    exact hs start soFar quoted rfl
  | case3 offset rest ih =>
    refine ih ?_ hm
    rintro start soFar quoted ⟨⟩
    exact Nat.le_add_right _ _
  | case4 offset c rest _ ih => exact ih (by simp) hm
  | case5 offset start soFar rest ih =>
    obtain rfl | hm := List.mem_cons.mp hm
    · exact Nat.le_trans (hs start soFar false rfl) (Nat.le_add_right _ _)
    · exact ih (by simp) hm
  | case6 offset start soFar quoted c rest _ ih =>
    refine ih ?_ hm
    rintro start' soFar' quoted' ⟨⟩
    exact Nat.le_trans (hs start soFar quoted rfl) (Nat.le_add_right _ _)

theorem le_of_mem_markers {text : List Char} {m : Marker} (hm : m ∈ markers text) :
    m.span.start ≤ m.span.stop := le_of_mem_scan (by simp) hm

end Marker

namespace Check

theorem absolute_inside (text : List Char) (base : Nat) {s : Span} (h : s.start ≤ s.stop) :
    (absolute text base s).Inside ⟨base, base + text.length⟩ :=
  ⟨Nat.le_add_right _ _, Nat.add_le_add_left (charOffset_mono text h) _,
    Nat.add_le_add_left (charOffset_le_length text s.stop) _⟩

theorem foldl_add (provider : ContextProvider) (text : List Char) (base : Nat) (ms : List Marker)
    (r : MarkerReport) :
    ms.foldl (fun r m => r.add (absolute text base m.span) (marker provider m)) r =
      ⟨r.values ++ ms.filterMap fun m =>
          match marker provider m with
          | .ok v => some ⟨absolute text base m.span, v⟩
          | .error _ => none,
        r.failed || ms.any fun m =>
          match marker provider m with
          | .ok _ => false
          | .error _ => true,
        r.diagnostics ++ ms.filterMap fun m =>
          match marker provider m with
          | .ok _ => none
          | .error message => some (.error message (absolute text base m.span))⟩ := by
  induction ms generalizing r with
  | nil => simp
  | cons m ms ih =>
    rw [List.foldl_cons, ih]
    cases hm : marker provider m <;> simp [MarkerReport.add, hm]

theorem markersOf_eq (provider : ContextProvider) (text : List Char) (base : Nat) :
    markersOf provider text base =
      ⟨(markers text).filterMap fun m =>
          match marker provider m with
          | .ok v => some ⟨absolute text base m.span, v⟩
          | .error _ => none,
        (markers text).any fun m =>
          match marker provider m with
          | .ok _ => false
          | .error _ => true,
        (markers text).filterMap fun m =>
          match marker provider m with
          | .ok _ => none
          | .error message => some (.error message (absolute text base m.span))⟩ := by
  simpa [markersOf, MarkerReport.empty] using foldl_add provider text base (markers text) .empty

theorem markersOf_diagnostics (provider : ContextProvider) (text : List Char) (base : Nat) :
    (markersOf provider text base).diagnostics = (markers text).filterMap fun m =>
      match marker provider m with
      | .ok _ => none
      | .error message => some (.error message (absolute text base m.span)) := by
  rw [markersOf_eq]

/-- With markers, too, it is one text at one place that is compared with the allowed values. -/
theorem mem_checkEvaluated {text : List Char} {span : Span} {values : List MarkerValue}
    {allowed : List AllowedValue} {x : Diagnostic} (h : x ∈ checkEvaluated text span values allowed) :
    ∃ value place, x ∈ checkAllowed value place allowed ∧
      (place = span ∨ ∃ v ∈ values, place = v.span) := by
  unfold checkEvaluated at h
  dsimp only at h
  split at h
  · split at h
    · split at h
      · exact ⟨_, _, h, .inr ⟨_, List.mem_cons_self, rfl⟩⟩
      · cases h
    · split at h
      · cases h
      · exact ⟨_, _, h, .inl rfl⟩
  · split at h
    · cases h
    · exact ⟨_, _, h, .inl rfl⟩

end Check
end WorkflowLint
