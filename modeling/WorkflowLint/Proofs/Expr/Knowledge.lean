import Mathlib.Data.List.Forall2
import WorkflowLint.Expr.Eval

/-! More knowledge about the contexts never takes a result back: what an expression is known to
be, or to be wrong, does not come from what was left open. -/
namespace WorkflowLint.Expr

/-- `s` tells everything that `r` tells. Where `r` cannot tell, `s` may say anything. -/
def Resolver.Le (r s : Resolver) : Prop :=
  ∀ name path, (∀ v, r name path = .known v → s name path = .known v) ∧
    (r name path = .unknown → s name path = .unknown)

/-- Results in the order of knowledge, by an order of their contents: an error stays an error, and
any result may turn out to be one. -/
def Tells {ε α : Type} (le : α → α → Prop) : Except ε α → Except ε α → Prop
  | .error _, .ok _ => False
  | .ok a, .ok b => le a b
  | _, .error _ => True

theorem Tells.of_error {ε α : Type} {le : α → α → Prop} (x : Except ε α) (e : ε) :
    Tells le x (.error e) := by
  cases x <;> trivial

theorem Tells.error_inv {ε α : Type} {le : α → α → Prop} {e : ε} {y : Except ε α}
    (h : Tells le (.error e) y) : ∃ e', y = .error e' := by
  cases y with
  | error e' => exact ⟨e', rfl⟩
  | ok b => exact False.elim h

theorem Tells.bind {ε α β : Type} {le : α → α → Prop} {le' : β → β → Prop} {x y : Except ε α}
    {f g : α → Except ε β} (h : Tells le x y) (hf : ∀ a b, le a b → Tells le' (f a) (g b)) :
    Tells le' (x.bind f) (y.bind g) := by
  cases x with
  | error e =>
    obtain ⟨e', rfl⟩ := h.error_inv
    trivial
  | ok a =>
    cases y with
    | error e' => exact .of_error _ e'
    | ok b => exact hf a b h

theorem Tells.map {ε α β : Type} {le : α → α → Prop} {le' : β → β → Prop} {x y : Except ε α}
    {f g : α → β} (h : Tells le x y) (hf : ∀ a b, le a b → le' (f a) (g b)) :
    Tells le' (x.map f) (y.map g) := by
  cases x with
  | error e =>
    obtain ⟨e', rfl⟩ := h.error_inv
    trivial
  | ok a =>
    cases y with
    | error e' => trivial
    | ok b => exact hf a b h

def Evaluation.Le : Evaluation → Evaluation → Prop
  | .known v, e => e = .known v
  | .indeterminate, _ => True

def Step.Le : Step → Step → Prop
  | .indeterminate, _ => True
  | s, t => t = s

abbrev Outcome.Le : Outcome → Outcome → Prop := Tells Evaluation.Le

theorem Outcome.indeterminate_le (o : Outcome) : Outcome.Le (.ok .indeterminate) o := by
  cases o <;> trivial

theorem Outcome.known_le (v : Json) : Outcome.Le (.ok (.known v)) (.ok (.known v)) := rfl

theorem negate_le {a b : Evaluation} (h : a.Le b) : (negate a).Le (negate b) := by
  cases a with
  | known v =>
    cases h
    rfl
  | indeterminate => trivial

theorem applyBinary_le (op : BinaryOp) {a b c d : Evaluation} (hl : a.Le b) (hr : c.Le d) :
    (applyBinary op a c).Le (applyBinary op b d) := by
  cases a with
  | indeterminate => cases op <;> trivial
  | known l =>
    cases hl
    cases op
    case and =>
      by_cases hb : l.isTruthy
      · simpa [applyBinary, hb] using hr
      · simp [applyBinary, hb, Evaluation.Le]
    case or =>
      by_cases hb : l.isTruthy
      · simp [applyBinary, hb, Evaluation.Le]
      · simpa [applyBinary, hb] using hr
    all_goals
      cases c with
      | indeterminate => trivial
      | known r =>
        cases hr
        rfl

theorem allKnown?_eq {as bs : List Evaluation} (h : List.Forall₂ Evaluation.Le as bs)
    {vs : List Json} (hv : allKnown? as = some vs) : allKnown? bs = some vs := by
  induction h generalizing vs with
  | nil => exact hv
  | @cons a b as bs hab _ ih =>
    cases a with
    | indeterminate => simp [allKnown?] at hv
    | known v =>
      cases hab
      obtain ⟨ws, hw, rfl⟩ := Option.map_eq_some_iff.1 hv
      simp [allKnown?, ih hw]

theorem ofIndex_le {a b : Evaluation} (h : a.Le b) : (Step.ofIndex a).Le (Step.ofIndex b) := by
  cases a with
  | indeterminate => trivial
  | known v =>
    cases h
    cases Step.ofIndex (.known v) <;> trivial

theorem steps_eq {ss ts : List Step} (h : List.Forall₂ Step.Le ss ts)
    (hs : .indeterminate ∉ ss) : ts = ss := by
  induction h with
  | nil => rfl
  | @cons s t ss ts hst _ ih =>
    have hss : .indeterminate ∉ ss := fun hm => hs (List.mem_cons_of_mem s hm)
    obtain g | _ | _ := s
    · rw [ih hss, show t = _ from hst]
    · exact absurd (List.mem_cons_self ..) hs
    · rw [ih hss, show t = _ from hst]

def Root.Le : Root → Root → Prop
  | .context n, .context m => n = m
  | .value o, .value o' => Outcome.Le o o'
  | _, _ => False

structure Access.Le (a b : Access) : Prop where
  root : a.root.Le b.root
  steps : Tells (List.Forall₂ Step.Le) a.steps b.steps

variable {r s : Resolver} (fs : Functions)

theorem callFunction_le (span : Span) (name : String) {as bs : List Evaluation}
    (h : List.Forall₂ Evaluation.Le as bs) :
    Outcome.Le (callFunction ⟨r, fs⟩ span name as) (callFunction ⟨s, fs⟩ span name bs) := by
  have hlen := h.length_eq
  unfold callFunction
  cases fs.get? name with
  | none => trivial
  | some f =>
    simp only [← hlen]
    by_cases ha : f.accepts as.length
    · simp only [ha, if_true]
      cases hk : allKnown? as with
      | none => exact Outcome.indeterminate_le _
      | some vs =>
        simp only [allKnown?_eq h hk]
        cases f.call vs with
        | error e => trivial
        | ok result => cases result <;> trivial
    · simp only [ha]
      trivial

namespace Access

theorem steps_push (a : Access) (x : Except EvalError Step) :
    (a.push x).steps = a.steps.bind fun steps => x.map fun s => steps ++ [s] := by
  unfold push
  cases a.steps with
  | error e => rfl
  | ok steps => cases x <;> rfl

theorem push_le {a b : Access} {x y : Except EvalError Step} (h : a.Le b)
    (hs : Tells Step.Le x y) : (a.push x).Le (b.push y) := by
  refine ⟨h.root, ?_⟩
  rw [steps_push, steps_push]
  refine h.steps.bind fun ss ts hst => ?_
  exact hs.map fun p q hpq => List.rel_append hst (.cons hpq .nil)

theorem lookUp_le (h : r.Le s) (span : Span) (name : String) (path : Path) :
    Outcome.Le (lookUp ⟨r, fs⟩ span name path) (lookUp ⟨s, fs⟩ span name path) := by
  obtain ⟨hknown, hunknown⟩ := h name path
  unfold lookUp
  cases hr : r name path with
  | known v =>
    simp only [hr, hknown v hr]
    exact Outcome.known_le v
  | indeterminate =>
    simp only [hr]
    exact Outcome.indeterminate_le _
  | unknown =>
    simp only [hr, hunknown hr]
    trivial

theorem finish_of_indeterminate (env : Env) (span : Span) (root : Root) {steps : List Step}
    (hs : .indeterminate ∈ steps) :
    finish env span ⟨root, .ok steps⟩ = match root with
      | .value (.error e) => .error e
      | _ => .ok .indeterminate := by
  have hb : blocked? steps = some .indeterminate := by simp [blocked?, hs]
  obtain name | (e | _ | v) := root <;> simp [finish, hb]

theorem finish_le_of_steps (h : r.Le s) (span : Span) (steps : List Step) {p q : Root}
    (hr : p.Le q) :
    Outcome.Le (finish ⟨r, fs⟩ span ⟨p, .ok steps⟩) (finish ⟨s, fs⟩ span ⟨q, .ok steps⟩) := by
  obtain name | (e | v | _) := p
  · obtain name' | o := q
    · cases hr
      simp only [finish]
      cases blocked? steps with
      | none => exact lookUp_le fs h span name _
      | some e => cases e <;> trivial
    · exact False.elim hr
  · obtain name' | o := q
    · exact False.elim hr
    · obtain ⟨e', rfl⟩ := Tells.error_inv hr
      trivial
  · obtain name' | (e' | w) := q
    · exact False.elim hr
    · exact .of_error _ e'
    · cases hr
      simp only [finish]
      cases blocked? steps with
      | none => exact Outcome.known_le _
      | some e => cases e <;> trivial
  · exact Outcome.indeterminate_le _

/-- Steps that are all decided are the same under both resolvers, and while one of them is open
only an error of the root can come out. -/
theorem finish_le (h : r.Le s) (span : Span) {a b : Access} (hab : a.Le b) :
    Outcome.Le (a.finish ⟨r, fs⟩ span) (b.finish ⟨s, fs⟩ span) := by
  obtain ⟨p, x⟩ := a
  obtain ⟨q, y⟩ := b
  obtain ⟨hr, hs⟩ := hab
  cases x with
  | error e =>
    obtain ⟨e', rfl⟩ := hs.error_inv
    trivial
  | ok ss =>
    cases y with
    | error e' => exact .of_error _ e'
    | ok ts =>
      by_cases hi : .indeterminate ∈ ss
      · rw [finish_of_indeterminate _ span p hi]
        obtain name | (e | v) := p
        · exact Outcome.indeterminate_le _
        · obtain name' | o := q
          · exact False.elim hr
          · obtain ⟨e', rfl⟩ := Tells.error_inv hr
            trivial
        · exact Outcome.indeterminate_le _
      · have hst : ts = ss := steps_eq hs hi
        rw [hst]
        exact finish_le_of_steps fs h span ss hr

end Access

-- One induction over the tree: an access by its constructor, a list of arguments by its head.
mutual

theorem access_le (h : r.Le s) : ∀ e : Expr, (access ⟨r, fs⟩ e).Le (access ⟨s, fs⟩ e)
  | .literal _ v => by
    rw [access, access]
    exact ⟨Outcome.known_le _, .nil⟩
  | .context _ name => by
    rw [access, access]
    exact ⟨rfl, .nil⟩
  | .property _ target name => by
    rw [access, access]
    exact Access.push_le (access_le h target) rfl
  | .index _ target i => by
    have hi : Outcome.Le (eval ⟨r, fs⟩ i) (eval ⟨s, fs⟩ i) :=
      Access.finish_le fs h i.span (access_le h i)
    rw [access_index, access_index]
    exact Access.push_le (access_le h target) (hi.map fun _ _ hab => ofIndex_le hab)
  | .call span name args => by
    rw [access_call, access_call]
    refine ⟨?_, .nil⟩
    exact (evalAll_le h args).bind fun _ _ hab => callFunction_le fs span name hab
  | .apply span callee args => by
    rw [access_apply, access_apply]
    refine ⟨?_, .nil⟩
    exact (evalAll_le h args).bind fun _ _ _ => .of_error _ _
  | .binary _ op left right => by
    have hl : Outcome.Le (eval ⟨r, fs⟩ left) (eval ⟨s, fs⟩ left) :=
      Access.finish_le fs h left.span (access_le h left)
    have hr : Outcome.Le (eval ⟨r, fs⟩ right) (eval ⟨s, fs⟩ right) :=
      Access.finish_le fs h right.span (access_le h right)
    rw [access_binary, access_binary]
    refine ⟨?_, .nil⟩
    exact hl.bind fun _ _ hll => hr.map fun _ _ hrr => applyBinary_le op hll hrr
  | .not _ operand => by
    have ho : Outcome.Le (eval ⟨r, fs⟩ operand) (eval ⟨s, fs⟩ operand) :=
      Access.finish_le fs h operand.span (access_le h operand)
    rw [access_not, access_not]
    exact ⟨ho.map fun _ _ hab => negate_le hab, .nil⟩

theorem evalAll_le (h : r.Le s) :
    ∀ es : List Expr, Tells (List.Forall₂ Evaluation.Le) (evalAll ⟨r, fs⟩ es) (evalAll ⟨s, fs⟩ es)
  | [] => .nil
  | e :: es => by
    have he : Outcome.Le (eval ⟨r, fs⟩ e) (eval ⟨s, fs⟩ e) :=
      Access.finish_le fs h e.span (access_le h e)
    rw [evalAll_cons, evalAll_cons]
    exact he.bind fun _ _ hab => (evalAll_le h es).map fun _ _ hrest => .cons hab hrest

end

theorem eval_le (h : r.Le s) (e : Expr) : Outcome.Le (eval ⟨r, fs⟩ e) (eval ⟨s, fs⟩ e) :=
  Access.finish_le fs h e.span (access_le fs h e)

/-- An error is an error under every resolver that knows more, and a known value is the value
there, unless the rest of the expression turns out to be wrong. -/
theorem eval_monotone (fs : Functions) (r s : Resolver) (h : r.Le s) (e : Expr) :
    (∀ x, eval ⟨r, fs⟩ e = .error x → ∃ y, eval ⟨s, fs⟩ e = .error y) ∧
    (∀ v o, eval ⟨r, fs⟩ e = .ok (.known v) → eval ⟨s, fs⟩ e = .ok o → o = .known v) := by
  have hle := eval_le fs h e
  constructor
  · intro x hx
    rw [hx] at hle
    exact hle.error_inv
  · intro v o hv ho
    rw [hv, ho] at hle
    exact hle

def inputsOnly : Resolver := fun name _ =>
  if name = "inputs" then .known (.bool true) else .indeterminate

def allTold : Resolver := fun name _ =>
  if name = "inputs" then .known (.bool true)
  else if name = "vars" then .known (.str "key")
  else .known .null

theorem inputsOnly_le_allTold : inputsOnly.Le allTold := by
  intro name path
  by_cases hn : name = "inputs" <;> simp [inputsOnly, allTold, hn]

def goOrLookup : Expr :=
  .binary ⟨0, 28⟩ .or (.property ⟨0, 9⟩ (.context ⟨0, 6⟩ "inputs") "go")
    (.index ⟨13, 28⟩ (.context ⟨13, 16⟩ "env")
      (.property ⟨17, 26⟩ (.context ⟨17, 21⟩ "vars") "name"))

theorem eval_monotone_goOrLookup :
    inputsOnly.Le allTold ∧
    eval ⟨inputsOnly, .builtins⟩ goOrLookup = .ok (.known (.bool true)) ∧
    ∀ o, eval ⟨allTold, .builtins⟩ goOrLookup = .ok o → o = .known (.bool true) :=
  ⟨inputsOnly_le_allTold, rfl,
    fun o => (eval_monotone .builtins inputsOnly allTold inputsOnly_le_allTold goOrLookup).2
      (.bool true) o rfl⟩

end WorkflowLint.Expr
