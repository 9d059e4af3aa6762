import WorkflowLint.Proofs.Expr.Knowledge

/-! Chains of accesses: where they begin, the indexes on the way, and what they come to. The indexes
are evaluated first, and then the whole chain is looked up as one path. -/
namespace WorkflowLint.Expr

def chainRoot : Expr → Expr
  | .property _ target _ | .index _ target _ => chainRoot target
  | e => e

def chainIndexes : Expr → List Expr
  | .property _ target _ => chainIndexes target
  | .index _ target i => chainIndexes target ++ [i]
  | _ => []

/-- The expression is an access to a context, and its names and the values of its indexes make up
the path. -/
inductive LeadsTo (env : Env) : Expr → String → Path → Prop
  | context {span name} : LeadsTo env (.context span name) name []
  | property {span target own name path} : LeadsTo env target name path →
      LeadsTo env (.property span target own) name (path ++ [.key own])
  | index {span target i name path value s} : LeadsTo env target name path →
      eval env i = .ok value → Step.ofIndex value = .to s →
      LeadsTo env (.index span target i) name (path ++ [s])

namespace Access
variable {env : Env} {span : Span} {steps : List Step}

theorem pathOf?_map (path : Path) : pathOf? (path.map .to) = some path := by
  induction path with
  | nil => rfl
  | cons s path ih => simp [pathOf?, ih]

theorem blocked?_map (path : Path) : blocked? (path.map .to) = none := by
  simp [blocked?]

theorem exists_path (h : blocked? steps = none) : ∃ path : Path, steps = path.map .to := by
  have hopen : Step.indeterminate ∉ steps := by
    intro hm
    simp [blocked?, hm] at h
  have hnowhere : Step.nowhere ∉ steps := by
    intro hm
    simp [blocked?, hopen, hm] at h
  clear h
  induction steps with
  | nil => exact ⟨[], rfl⟩
  | cons step steps ih =>
    simp only [List.mem_cons, not_or] at hopen hnowhere
    obtain ⟨path, rfl⟩ := ih hopen.2 hnowhere.2
    obtain s | _ | _ := step
    · exact ⟨s :: path, rfl⟩
    · exact absurd rfl hopen.1
    · exact absurd rfl hnowhere.1

theorem finish_ofValue (o : Outcome) : (ofValue o).finish env span = o := by
  obtain x | v | _ := o <;> rfl

theorem finish_eq_bind (a : Access) :
    a.finish env span = a.steps.bind fun steps => finish env span ⟨a.root, .ok steps⟩ := by
  obtain ⟨root, x | steps⟩ := a <;> rfl

theorem finish_path (name : String) (path : Path) :
    finish env span ⟨.context name, .ok (path.map .to)⟩ = lookUp env span name path := by
  simp only [finish, blocked?_map, pathOf?_map, Option.getD_some]

theorem finish_value_path (v : Json) (path : Path) :
    finish env span ⟨.value (.ok (.known v)), .ok (path.map .to)⟩ =
      .ok (.known (v.navigate path)) := by
  simp only [finish, blocked?_map, pathOf?_map, Option.getD_some]

theorem finish_value_error_iff {o : Outcome} {x : EvalError} :
    finish env span ⟨.value o, .ok steps⟩ = .error x ↔ o = .error x := by
  obtain y | v | _ := o
  · simp [finish]
  · cases hb : blocked? steps <;> simp [finish, hb]
  · simp [finish]

theorem finish_context_error {name : String} {x : EvalError}
    (h : finish env span ⟨.context name, .ok steps⟩ = .error x) :
    ∃ path : Path, steps = path.map .to ∧ env.resolve name path = .unknown ∧
      x = ⟨.unknownAccess (name ++ path.steps), span⟩ := by
  cases hb : blocked? steps with
  | some e => simp [finish, hb] at h
  | none =>
    obtain ⟨path, rfl⟩ := exists_path hb
    rw [finish_path] at h
    cases hr : env.resolve name path with
    | known v => simp [lookUp, hr] at h
    | indeterminate => simp [lookUp, hr] at h
    | unknown =>
      simp only [lookUp, hr, Except.error.injEq] at h
      exact ⟨path, rfl, hr, h.symm⟩

theorem push_eq_path {a : Access} {step : Except EvalError Step} {name : String} {path : Path}
    (h : a.push step = ⟨.context name, .ok (path.map .to)⟩) :
    ∃ before s, path = before ++ [s] ∧ a = ⟨.context name, .ok (before.map .to)⟩ ∧
      step = .ok (.to s) := by
  obtain ⟨root, x | steps⟩ := a
  · cases step <;> simp [push] at h
  · cases step with
    | error x => simp [push] at h
    | ok last =>
      simp only [push, Access.mk.injEq, Except.ok.injEq] at h
      obtain ⟨rfl, hsteps⟩ := h
      obtain ⟨before, after, rfl, rfl, hlast⟩ := List.map_eq_append_iff.mp hsteps.symm
      obtain ⟨s, rfl, rfl⟩ := List.map_eq_singleton_iff.mp hlast
      exact ⟨before, s, rfl, rfl, rfl⟩

end Access

section
variable {env : Env}

theorem eval_of_ofValue {e : Expr} {o : Outcome} (h : access env e = .ofValue o) :
    eval env e = o := by
  rw [eval, h, Access.finish_ofValue]

theorem eval_literal (span : Span) (v : Literal) :
    eval env (.literal span v) = .ok (.known v.toJson) :=
  eval_of_ofValue (by rw [access])

theorem eval_call (span : Span) (name : String) (args : List Expr) :
    eval env (.call span name args) = (evalAll env args).bind (callFunction env span name) :=
  eval_of_ofValue (access_call env span name args)

theorem eval_apply (span : Span) (callee : Expr) (args : List Expr) :
    eval env (.apply span callee args) =
      (evalAll env args).bind fun _ => .error ⟨.invalid, span⟩ :=
  eval_of_ofValue (access_apply env span callee args)

theorem eval_binary (span : Span) (op : BinaryOp) (left right : Expr) :
    eval env (.binary span op left right) =
      (eval env left).bind fun l => (eval env right).map (applyBinary op l) :=
  eval_of_ofValue (access_binary env span op left right)

theorem eval_not (span : Span) (operand : Expr) :
    eval env (.not span operand) = (eval env operand).map negate :=
  eval_of_ofValue (access_not env span operand)

theorem LeadsTo.access_eq {e : Expr} {name : String} {path : Path} (h : LeadsTo env e name path) :
    access env e = ⟨.context name, .ok (path.map .to)⟩ := by
  induction h with
  | context => rw [access]; rfl
  | property _ ih => simp [access, ih, Access.push]
  | index _ hvalue hstep ih => simp [access_index, ih, hvalue, Except.map, hstep, Access.push]

theorem LeadsTo.eval_eq {e : Expr} {name : String} {path : Path} (h : LeadsTo env e name path) :
    eval env e = Access.lookUp env e.span name path := by
  rw [eval, h.access_eq, Access.finish_path]

theorem leadsTo_of_access : ∀ {e : Expr} {name : String} {path : Path},
    access env e = ⟨.context name, .ok (path.map .to)⟩ → LeadsTo env e name path
  | .context _ own, name, path, h => by
    rw [access] at h
    simp only [Access.ofContext, Access.mk.injEq, Root.context.injEq, Except.ok.injEq] at h
    obtain ⟨rfl, hpath⟩ := h
    cases List.map_eq_nil_iff.mp hpath.symm
    exact .context
  | .property _ target own, name, path, h => by
    rw [access] at h
    obtain ⟨before, s, rfl, htarget, hstep⟩ := Access.push_eq_path h
    cases hstep
    exact .property (leadsTo_of_access htarget)
  | .index _ target i, name, path, h => by
    rw [access_index] at h
    obtain ⟨before, s, rfl, htarget, hstep⟩ := Access.push_eq_path h
    cases hi : eval env i with
    | error x => simp [hi, Except.map] at hstep
    | ok value =>
      simp only [hi, Except.map, Except.ok.injEq] at hstep
      exact .index (leadsTo_of_access htarget) hi hstep
  | .literal _ _, _, _, h | .call _ _ _, _, _, h | .apply _ _ _, _, _, h
  | .binary _ _ _ _, _, _, h | .not _ _, _, _, h => by
    rw [access] at h
    cases h

end
end WorkflowLint.Expr
