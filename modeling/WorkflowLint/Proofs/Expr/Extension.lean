import WorkflowLint.Proofs.Expr.Chain

/-! Longer accesses. Where no context has a place there are none below it either, so an access that
fails also fails when it goes on. Only an index that is not known, or that no value can follow,
keeps the context from being asked at all. -/
namespace WorkflowLint

namespace Json

theorem at?_append (v : Json) (p q : Path) : v.at? (p ++ q) = (v.at? p).bind (·.at? q) := by
  induction p generalizing v with
  | nil => rfl
  | cons s p ih => simp only [List.cons_append, at?, ih, Option.bind_assoc]

theorem resolve_longer {v : Json} {path : Path} (h : v.resolve path = .unknown) (s : Segment) :
    v.resolve (path ++ [s]) = .unknown := by
  have hnone : v.at? path = none := by
    cases hat : v.at? path with
    | none => rfl
    | some w => simp [resolve, hat] at h
  have hat : v.at? (path ++ [s]) = none := by
    rw [at?_append, hnone]
    rfl
  have harray : v.indexesArray (path ++ [s]) = false := by
    cases s <;> simp [indexesArray, hnone]
  simp [resolve, hat, harray]

end Json

-- The induction goes down the fields of objects, to a value or to where a closed object ends.
theorem ContextValue.resolve_longer {c : ContextValue} {path : Path} (h : c.resolve path = .unknown)
    (s : Segment) : c.resolve (path ++ [s]) = .unknown := by
  induction path generalizing c with
  | nil => cases hw : c.whole? <;> simp [resolve, hw] at h
  | cons first rest ih =>
    cases c with
    | dynamic => simp [resolve] at h
    | known v =>
      simp only [resolve] at h
      exact Json.resolve_longer h s
    | object fields isOpen =>
      cases first with
      | index i => simpa only [List.cons_append, resolve] using h
      | key name =>
        simp only [List.cons_append, resolve] at h ⊢
        cases hl : lookupName? name fields with
        | some child =>
          simp only [hl] at h ⊢
          exact ih h
        | none => simpa only [hl] using h

namespace Expr

def Resolver.PrefixClosed (r : Resolver) : Prop :=
  ∀ name path s, r name path = .unknown → r name (path ++ [s]) = .unknown

theorem Resolver.prefixClosed_ofProvider (provider : ContextProvider) :
    (Resolver.ofProvider provider).PrefixClosed := by
  intro name path s h
  unfold Resolver.ofProvider at h ⊢
  cases hp : provider name with
  | none => rfl
  | some c =>
    simp only [hp] at h
    exact c.resolve_longer h s

section
variable {env : Env} {e : Expr} {x : EvalError}

theorem LeadsTo.eval_of_unknown {name : String} {path : Path} (h : LeadsTo env e name path)
    (hu : env.resolve name path = .unknown) :
    eval env e = .error ⟨.unknownAccess (name ++ path.steps), e.span⟩ := by
  rw [h.eval_eq, Access.lookUp, hu]

theorem eval_error_cases (h : eval env e = .error x) :
    (∃ name path, LeadsTo env e name path ∧ env.resolve name path = .unknown) ∨
    ∀ step span, ∃ y, ((access env e).push (.ok step)).finish env span = .error y := by
  unfold eval at h
  cases ha : access env e with
  | mk root steps =>
    rw [ha] at h
    cases steps with
    | error y => exact .inr fun step span => ⟨y, rfl⟩
    | ok steps =>
      cases root with
      | context name =>
        obtain ⟨path, rfl, hunknown, -⟩ := Access.finish_context_error h
        exact .inl ⟨name, path, leadsTo_of_access ha, hunknown⟩
      | value o =>
        have ho := Access.finish_value_error_iff.mp h
        exact .inr fun step span => ⟨x, Access.finish_value_error_iff.mpr ho⟩

theorem eval_property (span : Span) (name : String) :
    eval env (.property span e name) =
      ((access env e).push (.ok (.to (.key name)))).finish env span := by
  rw [eval, access]
  rfl

theorem eval_index {i : Expr} {value : Evaluation} (span : Span) (hi : eval env i = .ok value) :
    eval env (.index span e i) =
      ((access env e).push (.ok (Step.ofIndex value))).finish env span := by
  rw [eval, access_index, hi]
  rfl

variable (hr : env.resolve.PrefixClosed)
include hr

theorem property_fails (h : eval env e = .error x) (span : Span) (name : String) :
    ∃ y, eval env (.property span e name) = .error y := by
  obtain ⟨context, path, hpath, hunknown⟩ | hall := eval_error_cases h
  · exact ⟨_, hpath.property.eval_of_unknown (hr _ _ _ hunknown)⟩
  · rw [eval_property]
    exact hall _ span

theorem index_fails {i : Expr} {value : Evaluation} {s : Segment} (h : eval env e = .error x)
    (hi : eval env i = .ok value) (hs : Step.ofIndex value = .to s) (span : Span) :
    ∃ y, eval env (.index span e i) = .error y := by
  obtain ⟨context, path, hpath, hunknown⟩ | hall := eval_error_cases h
  · exact ⟨_, (hpath.index hi hs).eval_of_unknown (hr _ _ _ hunknown)⟩
  · rw [eval_index span hi]
    exact hall _ span

end

theorem LeadsTo.step_of_index_error {env : Env} {e i : Expr} {name : String} {path : Path}
    {value : Evaluation} {span : Span} {y : EvalError} (h : LeadsTo env e name path)
    (hi : eval env i = .ok value) (hy : eval env (.index span e i) = .error y) :
    ∃ s, Step.ofIndex value = .to s := by
  rw [eval_index span hi, h.access_eq] at hy
  obtain ⟨longer, hsteps, -⟩ := Access.finish_context_error hy
  have hlast : Step.ofIndex value ∈ longer.map .to := by
    rw [← hsteps]
    exact List.mem_append_right _ (List.mem_singleton_self _)
  obtain ⟨s, -, hs⟩ := List.mem_map.mp hlast
  exact ⟨s, hs.symm⟩

/-- An expression that fails also fails with a name behind it. With an index behind it, it fails if
the index is a step that a value can take. If the index is open or leads nowhere, it fails only if
one of its parts does. -/
theorem longer_access_fails (provider : ContextProvider) (fs : Functions) (e : Expr) (x : EvalError)
    (h : eval ⟨.ofProvider provider, fs⟩ e = .error x) (span : Span) :
    (∀ name, ∃ y, eval ⟨.ofProvider provider, fs⟩ (.property span e name) = .error y) ∧
    ∀ i value, eval ⟨.ofProvider provider, fs⟩ i = .ok value →
      ((∃ y, eval ⟨.ofProvider provider, fs⟩ (.index span e i) = .error y) ↔
        (∃ s, Step.ofIndex value = .to s) ∨
        ¬∃ name path, LeadsTo ⟨.ofProvider provider, fs⟩ e name path) := by
  have hr := Resolver.prefixClosed_ofProvider provider
  refine ⟨property_fails hr h span, fun i value hi => ⟨?_, ?_⟩⟩
  · rintro ⟨y, hy⟩
    by_cases hown : ∃ name path, LeadsTo ⟨.ofProvider provider, fs⟩ e name path
    · obtain ⟨name, path, hpath⟩ := hown
      exact .inl (hpath.step_of_index_error hi hy)
    · exact .inr hown
  · rintro (⟨s, hs⟩ | hown)
    · exact index_fails hr h hi hs span
    · obtain ⟨name, path, hpath, -⟩ | hall := eval_error_cases h
      · exact absurd ⟨name, path, hpath⟩ hown
      · rw [eval_index span hi]
        exact hall _ span

def noFields : ContextProvider
  | "env" => some (.closed [])
  | "vars" => some .dynamic
  | _ => none

def missingField : Expr := .property ⟨0, 11⟩ (.context ⟨0, 3⟩ "env") "missing"

theorem longer_access_fails_missingField :
    (∃ x, eval ⟨.ofProvider noFields, .builtins⟩ missingField = .error x) ∧
    (∃ y, eval ⟨.ofProvider noFields, .builtins⟩
      (.property ⟨0, 18⟩ missingField "deeper") = .error y) ∧
    ∃ y, eval ⟨.ofProvider noFields, .builtins⟩
      (.index ⟨0, 21⟩ missingField (.literal ⟨12, 20⟩ (.string "deeper"))) = .error y := by
  have h : eval ⟨.ofProvider noFields, .builtins⟩ missingField =
      .error ⟨.unknownAccess "env.missing", ⟨0, 11⟩⟩ := rfl
  refine ⟨⟨_, h⟩, (longer_access_fails noFields .builtins missingField _ h _).1 "deeper", ?_⟩
  refine ((longer_access_fails noFields .builtins missingField _ h _).2 _ _ rfl).mpr (.inl ?_)
  exact ⟨.key "deeper", rfl⟩

/-- `env.missing` fails, but neither `env.missing[vars.key]` nor `env.missing[null]` does. -/
theorem index_hides_missingField :
    eval ⟨.ofProvider noFields, .builtins⟩ missingField =
      .error ⟨.unknownAccess "env.missing", ⟨0, 11⟩⟩ ∧
    eval ⟨.ofProvider noFields, .builtins⟩ (.index ⟨0, 21⟩ missingField
      (.property ⟨12, 20⟩ (.context ⟨12, 16⟩ "vars") "key")) = .ok .indeterminate ∧
    eval ⟨.ofProvider noFields, .builtins⟩ (.index ⟨0, 17⟩ missingField
      (.literal ⟨12, 16⟩ .null)) = .ok (.known .null) :=
  ⟨rfl, rfl, rfl⟩

end Expr
end WorkflowLint
