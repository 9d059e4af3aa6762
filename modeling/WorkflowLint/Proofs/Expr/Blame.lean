import Mathlib.Logic.Relation
import WorkflowLint.Proofs.Expr.Chain

/-! Where errors come from. Evaluation looks at all parts of an expression, also at those that have
no say in its value, and an error is reported at the call or at the access that is wrong itself. -/
namespace WorkflowLint.Expr

def rootParts : Expr → List Expr
  | .context _ _ => []
  | e => [e]

/-- What is evaluated for the sake of an expression, but for what lies deeper. A chain is followed
as a whole, so its shorter accesses are no parts, and neither is a callee that is no name. -/
def parts : Expr → List Expr
  | .literal _ _ | .context _ _ => []
  | .property _ target _ => chainIndexes target ++ rootParts (chainRoot target)
  | .index _ target i => chainIndexes target ++ [i] ++ rootParts (chainRoot target)
  | .call _ _ args | .apply _ _ args => args
  | .binary _ _ left right => [left, right]
  | .not _ operand => [operand]

def Part (e p : Expr) : Prop := p ∈ parts e

def Evaluates : Expr → Expr → Prop := Relation.ReflTransGen Part

def EvaluatesInside : Expr → Expr → Prop := Relation.TransGen Part

def Succeeds (env : Env) (e : Expr) : Prop := ∃ o, eval env e = .ok o

inductive AtFault (env : Env) : Expr → EvalError → Prop
  | call {span name args} : AtFault env (.call span name args) ⟨.invalid, span⟩
  | overflow {span name args} : AtFault env (.call span name args) ⟨.overflow, span⟩
  | apply {span callee args} : AtFault env (.apply span callee args) ⟨.invalid, span⟩
  | access {e name path} : LeadsTo env e name path → env.resolve name path = .unknown →
      AtFault env e ⟨.unknownAccess (name ++ path.steps), e.span⟩

/-! The size of the parts -/

theorem sizeOf_chainRoot_le : ∀ e : Expr, sizeOf (chainRoot e) ≤ sizeOf e
  | .property _ target _ | .index _ target _ => by
    have htarget := sizeOf_chainRoot_le target
    simp only [chainRoot, property.sizeOf_spec, index.sizeOf_spec]
    omega
  | .literal _ _ | .context _ _ | .call _ _ _ | .apply _ _ _ | .binary _ _ _ _ | .not _ _ =>
    Nat.le_refl _

theorem sizeOf_chainIndexes_lt {i : Expr} : ∀ {e : Expr}, i ∈ chainIndexes e → sizeOf i < sizeOf e
  | .property _ target _, h => by
    have htarget := sizeOf_chainIndexes_lt (e := target) h
    simp only [property.sizeOf_spec]
    omega
  | .index _ target own, h => by
    simp only [index.sizeOf_spec]
    obtain h | h := List.mem_append.mp h
    · have htarget := sizeOf_chainIndexes_lt h
      omega
    · cases List.mem_singleton.mp h
      omega

theorem mem_rootParts {p root : Expr} (h : p ∈ rootParts root) : p = root := by
  cases root <;> simp_all [rootParts]

theorem Part.sizeOf_lt {e p : Expr} (h : Part e p) : sizeOf p < sizeOf e := by
  cases e with
  | literal | context => cases h
  | property span target name =>
    obtain h | h := List.mem_append.mp h
    · exact sizeOf_chainIndexes_lt (e := .property span target name) h
    · have hle := sizeOf_chainRoot_le target
      rw [mem_rootParts h, property.sizeOf_spec]
      omega
  | index span target i =>
    obtain h | h := List.mem_append.mp h
    · exact sizeOf_chainIndexes_lt (e := .index span target i) h
    · have hle := sizeOf_chainRoot_le target
      rw [mem_rootParts h, index.sizeOf_spec]
      omega
  | call span name args =>
    have hlt := List.sizeOf_lt_of_mem (show p ∈ args from h)
    simp only [call.sizeOf_spec]
    omega
  | apply span callee args =>
    have hlt := List.sizeOf_lt_of_mem (show p ∈ args from h)
    simp only [apply.sizeOf_spec]
    omega
  | binary span op left right =>
    simp only [binary.sizeOf_spec]
    obtain rfl | rfl : p = left ∨ p = right := by simpa [Part, parts] using h
    · omega
    · omega
  | not span operand =>
    obtain rfl : p = operand := by simpa [Part, parts] using h
    simp only [not.sizeOf_spec]
    omega

/-! What results and errors rest on -/

/-- A result needs results of all the parts. An error is that of a part, or else, when all parts
have results, one of those that are its own. -/
structure Rests {α : Type} (env : Env) (ps : List Expr) (own : EvalError → Prop)
    (r : Except EvalError α) : Prop where
  ok : ∀ a, r = .ok a → ∀ p ∈ ps, Succeeds env p
  error : ∀ x, r = .error x →
    (∃ p ∈ ps, eval env p = .error x) ∨ ((∀ p ∈ ps, Succeeds env p) ∧ own x)

abbrev RestsOn {α : Type} (env : Env) (ps : List Expr) (r : Except EvalError α) : Prop :=
  Rests env ps (fun _ => False) r

namespace Rests
variable {α β : Type} {env : Env} {ps qs : List Expr} {own : EvalError → Prop}

theorem of_ok (a : α) : Rests env [] own (.ok a : Except EvalError α) where
  ok _ _ := List.forall_mem_nil _
  error _ h := by cases h

theorem of_error {x : EvalError} (h : own x) :
    Rests env [] own (.error x : Except EvalError α) where
  ok _ h := by cases h
  error y hy := by
    cases hy
    exact .inr ⟨List.forall_mem_nil _, h⟩

theorem of_eval (p : Expr) : Rests env [p] own (eval env p) where
  ok o h q hq := by
    cases List.mem_singleton.mp hq
    exact ⟨o, h⟩
  error x h := .inl ⟨p, List.mem_singleton_self p, h⟩

theorem bind {x : Except EvalError α} {f : α → Except EvalError β} (hx : RestsOn env ps x)
    (hf : ∀ a, x = .ok a → Rests env qs own (f a)) : Rests env (ps ++ qs) own (x.bind f) := by
  cases x with
  | error e =>
    refine ⟨fun b h => (by cases h), fun y h => ?_⟩
    cases h
    obtain ⟨p, hp, hy⟩ | ⟨-, hfalse⟩ := hx.error e rfl
    · exact .inl ⟨p, List.mem_append_left qs hp, hy⟩
    · cases hfalse
  | ok a =>
    have hps := hx.ok a rfl
    have hfa := hf a rfl
    refine ⟨fun b h => List.forall_mem_append.mpr ⟨hps, hfa.ok b h⟩, fun y h => ?_⟩
    obtain ⟨q, hq, hy⟩ | ⟨hqs, hown⟩ := hfa.error y h
    · exact .inl ⟨q, List.mem_append_right ps hq, hy⟩
    · exact .inr ⟨List.forall_mem_append.mpr ⟨hps, hqs⟩, hown⟩

theorem then_own {x : Except EvalError α} {f : α → Except EvalError β} (hx : RestsOn env ps x)
    (hf : ∀ a, Rests env [] own (f a)) : Rests env ps own (x.bind f) := by
  have hbind := hx.bind fun a _ => hf a
  rwa [List.append_nil] at hbind

theorem map {x : Except EvalError α} (hx : RestsOn env ps x) (f : α → β) :
    Rests env ps own (x.map f) := by
  have hbind : x.map f = x.bind fun a => .ok (f a) := by cases x <;> rfl
  rw [hbind]
  exact hx.then_own fun a => .of_ok (f a)

end Rests

theorem restsOn_evalAll (env : Env) (es : List Expr) : RestsOn env es (evalAll env es) := by
  induction es with
  | nil =>
    rw [evalAll]
    exact .of_ok []
  | cons e es ih =>
    rw [evalAll_cons, ← List.singleton_append]
    exact (Rests.of_eval e).bind fun v _ => ih.map (v :: ·)

theorem restsOn_steps (env : Env) : ∀ e : Expr, RestsOn env (chainIndexes e) (access env e).steps
  | .property _ target name => by
    have htarget := restsOn_steps env target
    rw [access, Access.steps_push]
    exact htarget.map fun steps => steps ++ [.to (.key name)]
  | .index _ target i => by
    have htarget := restsOn_steps env target
    rw [access_index, Access.steps_push]
    refine htarget.bind fun steps _ => ?_
    exact Rests.map ((Rests.of_eval i).map Step.ofIndex) fun s => steps ++ [s]
  | .literal _ _ | .context _ _ | .call _ _ _ | .apply _ _ _ | .binary _ _ _ _ | .not _ _ => by
    rw [access]
    exact .of_ok []

theorem root_of_ofValue {env : Env} {e : Expr} {o : Outcome} (h : access env e = .ofValue o) :
    (access env e).root = .value (eval env e) := by
  rw [eval_of_ofValue h, h]
  rfl

theorem root_cases (env : Env) : ∀ e : Expr,
    (rootParts (chainRoot e) = [] ∧ ∃ name, (access env e).root = .context name) ∨
    (rootParts (chainRoot e) = [chainRoot e] ∧
      (access env e).root = .value (eval env (chainRoot e)))
  | .context _ name => .inl ⟨rfl, name, by rw [access]; rfl⟩
  | .property _ target _ => by
    rw [access]
    exact root_cases env target
  | .index _ target _ => by
    rw [access]
    exact root_cases env target
  | .literal _ _ | .call _ _ _ | .apply _ _ _ | .binary _ _ _ _ | .not _ _ => by
    refine .inr ⟨rfl, ?_⟩
    exact root_of_ofValue (by rw [access])

theorem rests_access (env : Env) (e : Expr) :
    Rests env (chainIndexes e ++ rootParts (chainRoot e)) (AtFault env e) (eval env e) := by
  rw [eval, Access.finish_eq_bind]
  refine (restsOn_steps env e).bind fun steps hsteps => ?_
  -- only a context can have an error of its own, since steps into a value never fail
  obtain ⟨hparts, name, hroot⟩ | ⟨hparts, hroot⟩ := root_cases env e
  · rw [hparts, hroot]
    refine ⟨fun _ _ => List.forall_mem_nil _, fun x hx => .inr ⟨List.forall_mem_nil _, ?_⟩⟩
    obtain ⟨path, rfl, hunknown, rfl⟩ := Access.finish_context_error hx
    have haccess : access env e = ⟨.context name, .ok (path.map .to)⟩ := by
      rw [← hroot, ← hsteps]
    exact .access (leadsTo_of_access haccess) hunknown
  · rw [hparts, hroot]
    refine ⟨fun o ho p hp => ?_, fun x hx => .inl ⟨_, List.mem_singleton_self _, ?_⟩⟩
    · cases List.mem_singleton.mp hp
      cases hvalue : eval env (chainRoot e) with
      | ok v => exact ⟨v, hvalue⟩
      | error x =>
        rw [hvalue, Access.finish_value_error_iff.mpr rfl] at ho
        cases ho
    · exact Access.finish_value_error_iff.mp hx

theorem rests_callFunction (env : Env) (span : Span) (name : String) (args : List Expr)
    (values : List Evaluation) :
    Rests env [] (AtFault env (.call span name args)) (callFunction env span name values) := by
  unfold callFunction
  split
  · exact .of_error .call
  · split
    · split
      · exact .of_ok _
      · split
        · exact .of_ok _
        · next e _ =>
          cases e with
          | overflow => exact .of_error .overflow
          | _ => exact .of_error .call
    · exact .of_error .call

/-- One step down: an expression rests on its parts, and only calls and accesses add errors. -/
theorem rests_eval (env : Env) (e : Expr) : Rests env (parts e) (AtFault env e) (eval env e) := by
  cases e with
  | literal span v =>
    rw [eval_literal]
    exact .of_ok _
  | context span name => exact rests_access env (.context span name)
  | property span target name => exact rests_access env (.property span target name)
  | index span target i => exact rests_access env (.index span target i)
  | call span name args =>
    rw [eval_call]
    exact (restsOn_evalAll env args).then_own (rests_callFunction env span name args)
  | apply span callee args =>
    rw [eval_apply]
    exact (restsOn_evalAll env args).then_own fun _ => .of_error AtFault.apply
  | binary span op left right =>
    rw [eval_binary]
    exact (Rests.of_eval left).bind fun l _ => (Rests.of_eval right).map (applyBinary op l)
  | not span operand =>
    rw [eval_not]
    exact (Rests.of_eval operand).map negate

/-! The whole expression -/
variable {env : Env}

theorem Evaluates.succeeds {e s : Expr} (h : Evaluates e s) (he : Succeeds env e) :
    Succeeds env s := by
  induction h with
  | refl => exact he
  | tail _ hpart ih =>
    obtain ⟨o, ho⟩ := ih
    exact (rests_eval env _).ok o ho _ hpart

theorem AtFault.span_eq {e : Expr} {x : EvalError} (h : AtFault env e x) : e.span = x.span := by
  cases h <;> rfl

theorem exists_atFault (e : Expr) {x : EvalError} (h : eval env e = .error x) :
    ∃ s, Evaluates e s ∧ eval env s = .error x ∧ AtFault env s x ∧
      ∀ t, EvaluatesInside s t → Succeeds env t := by
  obtain ⟨p, hp, hx⟩ | ⟨hparts, hfault⟩ := (rests_eval env e).error x h
  · have hlt : sizeOf p < sizeOf e := Part.sizeOf_lt hp
    obtain ⟨s, hs, hrest⟩ := exists_atFault p hx
    exact ⟨s, .head hp hs, hrest⟩
  · refine ⟨e, .refl, h, hfault, fun t ht => ?_⟩
    obtain ⟨p, hp, hpt⟩ := Relation.TransGen.head'_iff.mp ht
    exact Evaluates.succeeds hpt (hparts p hp)
termination_by sizeOf e

/-- A result of an expression means that everything evaluated in it has a result. An error is the
error of a call, or of a whole access to a context, that stands at its span and in which everything
else has a result. -/
theorem eval_error_origin (env : Env) (e : Expr) :
    (∀ o, eval env e = .ok o → ∀ s, Evaluates e s → ∃ p, eval env s = .ok p) ∧
    ∀ x, eval env e = .error x → ∃ s, Evaluates e s ∧ s.span = x.span ∧ eval env s = .error x ∧
      AtFault env s x ∧ ∀ t, EvaluatesInside s t → ∃ p, eval env t = .ok p := by
  constructor
  · intro o ho s hs
    exact hs.succeeds ⟨o, ho⟩
  · intro x hx
    obtain ⟨s, hs, hfails, hfault, hinside⟩ := exists_atFault e hx
    exact ⟨s, hs, hfault.span_eq, hfails, hfault, hinside⟩

def emptyEnv : Resolver := fun name path =>
  if name = "env" ∧ path ≠ [] then .unknown else .indeterminate

/-- `false && secrets[env.missing]` -/
def hiddenAccess : Expr :=
  .binary ⟨0, 29⟩ .and (.literal ⟨0, 5⟩ (.bool false))
    (.index ⟨9, 29⟩ (.context ⟨9, 16⟩ "secrets")
      (.property ⟨17, 28⟩ (.context ⟨17, 20⟩ "env") "missing"))

theorem eval_error_origin_hiddenAccess :
    eval ⟨emptyEnv, .builtins⟩ hiddenAccess =
      .error ⟨.unknownAccess "env.missing", ⟨17, 28⟩⟩ ∧
    ∃ s, Evaluates hiddenAccess s ∧ s.span = ⟨17, 28⟩ ∧
      AtFault ⟨emptyEnv, .builtins⟩ s ⟨.unknownAccess "env.missing", ⟨17, 28⟩⟩ := by
  have hfails : eval ⟨emptyEnv, .builtins⟩ hiddenAccess =
      .error ⟨.unknownAccess "env.missing", ⟨17, 28⟩⟩ := rfl
  obtain ⟨s, hs, hspan, -, hfault, -⟩ :=
    (eval_error_origin ⟨emptyEnv, .builtins⟩ hiddenAccess).2 _ hfails
  exact ⟨hfails, s, hs, hspan, hfault⟩

end WorkflowLint.Expr
