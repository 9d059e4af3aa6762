import WorkflowLint.Proofs.Expr.Fields
import WorkflowLint.Workflow.Contexts

/-! The steps that an expression can name. Those behind its own step and those of other jobs make
no difference to it. -/
namespace WorkflowLint.Workflow
open Yaml (Value)
open WorkflowLint.Expr (Resolver)

def stepId? (step : Value) : Option String := (step.get? "id").bind Value.text?

def jobSteps? (workflow : Value) (job : String) : Option (List Value) :=
  (((workflow.get? "jobs").bind (·.get? job)).bind (·.get? "steps")).bind Value.items?

def jobPath (job : String) : Path := [.key "jobs", .key job]

def stepPath (job : String) (i : Nat) : Path := jobPath job ++ [.key "steps", .index i]

/-- One of the steps has this id, in letters of either case. -/
def Declared (steps : List Value) (name : String) : Prop :=
  ∃ step ∈ steps, ∃ id, stepId? step = some id ∧ Text.sameName id name = true

def stepParts : List String := ["outputs", "outcome", "conclusion"]

def IntoStep : Path → Prop
  | [] => True
  | .key name :: _ => ∃ part ∈ stepParts, Text.sameName part name = true
  | .index _ :: _ => False

instance : ∀ rest, Decidable (IntoStep rest)
  | [] => .isTrue trivial
  | .key name :: _ =>
    inferInstanceAs (Decidable (∃ part ∈ stepParts, Text.sameName part name = true))
  | .index _ :: _ => .isFalse id

/-- The context `steps` is there, and it has these steps and no others. -/
structure SeesSteps (provider : ContextProvider) (steps : List Value) : Prop where
  available : (provider "steps").isSome = true
  hidden : ∀ name rest, ¬Declared steps name →
    Resolver.ofProvider provider "steps" (.key name :: rest) = .unknown
  visible : ∀ name rest, Declared steps name → IntoStep rest →
    Resolver.ofProvider provider "steps" (.key name :: rest) = .indeterminate
  bounded : ∀ name rest, Declared steps name → ¬IntoStep rest →
    Resolver.ofProvider provider "steps" (.key name :: rest) = .unknown

/-! What the context holds -/

def stepValue : ContextValue :=
  .closed [("outputs", .anyFields), ("outcome", .dynamic), ("conclusion", .dynamic)]

def stepsOf (ids : List String) : ContextValue := .closed (ids.map fun id => (id, stepValue))

theorem steps_eq_stepsOf (job : Value) (current : Option Nat) :
    steps job current = stepsOf ((visibleSteps job current).filterMap stepId?) := by
  rw [steps, stepsOf, List.map_filterMap]
  rfl

theorem resolve_stepValue_key (name : String) (rest : Path) :
    stepValue.resolve (.key name :: rest) =
      if stepParts.any (Text.sameName · name) then .indeterminate else .unknown := by
  refine ContextValue.resolve_closed_key (fun field hf => ?_) name
  simp only [List.mem_cons, List.not_mem_nil, or_false] at hf
  obtain rfl | rfl | rfl := hf
  · exact ContextValue.resolve_anyFields rest
  · exact ContextValue.resolve_dynamic rest
  · exact ContextValue.resolve_dynamic rest

theorem resolve_stepValue_of_intoStep {rest : Path} (h : IntoStep rest) :
    stepValue.resolve rest = .indeterminate := by
  match rest with
  | [] => rfl
  | .key name :: rest =>
    have hany : stepParts.any (Text.sameName · name) = true := List.any_eq_true.mpr h
    rw [resolve_stepValue_key, if_pos hany]
  | .index i :: rest => exact False.elim h

theorem resolve_stepValue_of_not_intoStep {rest : Path} (h : ¬IntoStep rest) :
    stepValue.resolve rest = .unknown := by
  match rest with
  | [] => exact absurd trivial h
  | .key name :: rest =>
    have hany : ¬stepParts.any (Text.sameName · name) = true := fun hn => h (List.any_eq_true.mp hn)
    rw [resolve_stepValue_key, if_neg hany]
  | .index i :: rest => rfl

theorem declared_iff {steps : List Value} {name : String} : Declared steps name ↔
    ((steps.filterMap stepId?).map fun id => (id, stepValue)).any
      (fun field => Text.sameName field.1 name) = true := by
  simp only [Declared, List.any_eq_true, List.mem_map, List.mem_filterMap]
  constructor
  · rintro ⟨step, hs, id, hid, hname⟩
    exact ⟨(id, stepValue), ⟨id, ⟨step, hs, hid⟩, rfl⟩, hname⟩
  · rintro ⟨_, ⟨id, ⟨step, hs, hid⟩, rfl⟩, hname⟩
    exact ⟨step, hs, id, hid, hname⟩

instance (steps : List Value) (name : String) : Decidable (Declared steps name) :=
  decidable_of_iff _ declared_iff.symm

theorem resolve_stepsOf (ids : List String) (name : String) (rest : Path) :
    (stepsOf ids).resolve (.key name :: rest) =
      if (ids.map fun id => (id, stepValue)).any (fun field => Text.sameName field.1 name) then
        stepValue.resolve rest
      else .unknown := by
  refine ContextValue.resolve_closed_key (fun field hf => ?_) name
  obtain ⟨id, -, rfl⟩ := List.mem_map.mp hf
  rfl

theorem seesSteps_of_eq {provider : ContextProvider} {steps : List Value}
    (h : provider "steps" = some (stepsOf (steps.filterMap stepId?))) :
    SeesSteps provider steps := by
  have hresolve (name : String) (rest : Path) :
      Resolver.ofProvider provider "steps" (.key name :: rest) =
        (stepsOf (steps.filterMap stepId?)).resolve (.key name :: rest) :=
    Resolver.ofProvider_of_eq h _
  refine ⟨by rw [h]; rfl, fun name rest hd => ?_, fun name rest hd hr => ?_,
    fun name rest hd hr => ?_⟩
  · rw [hresolve, resolve_stepsOf, if_neg (mt declared_iff.mpr hd)]
  · rw [hresolve, resolve_stepsOf, if_pos (declared_iff.mp hd), resolve_stepValue_of_intoStep hr]
  · rw [hresolve, resolve_stepsOf, if_pos (declared_iff.mp hd),
      resolve_stepValue_of_not_intoStep hr]

/-! Where the context is asked for -/

variable {workflow : Value} {job : String} {all : List Value}

def stepOf? (rest : Path) : Option Nat := if rest.key? 0 = some "steps" then rest.index? 1 else none

def upTo (all : List Value) : Option Nat → List Value
  | some i => all.take i
  | none => all

theorem scope_in_job {found : Value} (h : workflow.at? (jobPath job) = some found) (rest : Path) :
    Scope.ofPath workflow (jobPath job ++ rest) =
      ⟨workflow, jobPath job ++ rest, some found, stepOf? rest⟩ := by
  have h0 : Path.key? (jobPath job ++ rest) 0 = some "jobs" := rfl
  have h1 : Path.key? (jobPath job ++ rest) 1 = some job := rfl
  have h2 : Path.key? (jobPath job ++ rest) 2 = rest.key? 0 := rfl
  have h3 : Path.index? (jobPath job ++ rest) 3 = rest.index? 1 := rfl
  have htake : (jobPath job ++ rest).take 2 = jobPath job := rfl
  simp [Scope.ofPath, h0, h1, h2, h3, htake, h, stepOf?]

theorem contexts_steps (repository : Repository) (h : jobSteps? workflow job = some all)
    (rest : Path) : contexts repository workflow (jobPath job ++ rest) "steps" =
      some (stepsOf ((upTo all (stepOf? rest)).filterMap stepId?)) := by
  obtain ⟨value, hsteps, hitems⟩ := Option.bind_eq_some_iff.mp h
  obtain ⟨found, hfound, hget⟩ := Option.bind_eq_some_iff.mp hsteps
  obtain ⟨jobs, hjobs, hjob⟩ := Option.bind_eq_some_iff.mp hfound
  have hat : workflow.at? (jobPath job) = some found := by
    simp [jobPath, Value.at?, hjobs, hjob]
  have hvisible (current : Option Nat) : visibleSteps found current = upTo all current := by
    cases current <;> simp [visibleSteps, upTo, hget, hitems]
  simp only [contexts, scope_in_job hat, Option.map_some, steps_eq_stepsOf, hvisible]

theorem stepOf?_step (i : Nat) (rest : Path) :
    stepOf? ([.key "steps", .index i] ++ rest) = some i := by
  simp [stepOf?, Path.key?, Path.index?]

theorem contexts_steps_at (repository : Repository) (h : jobSteps? workflow job = some all)
    (i : Nat) (rest : Path) : contexts repository workflow (stepPath job i ++ rest) "steps" =
      some (stepsOf ((all.take i).filterMap stepId?)) := by
  rw [stepPath, List.append_assoc, contexts_steps repository h, stepOf?_step, upTo]

theorem stepOf?_eq_none {rest : Path}
    (h : ∀ i below, rest ≠ .key "steps" :: .index i :: below) : stepOf? rest = none := by
  match rest with
  | [] | [.key _] | [.index _] | .index _ :: _ :: _ | .key _ :: .key _ :: _ =>
    simp [stepOf?, Path.key?, Path.index?]
  | .key name :: .index i :: below =>
    have hname : name ≠ "steps" := fun hn => h i below (by rw [hn])
    simp [stepOf?, Path.key?, hname]

/-- In a job whose steps are a sequence, an expression in step `i` sees the steps before it, and
one in another place of the job sees all of them. What it sees in step `i` depends on nothing but
the ids of those before: it is the same in any other workflow that has these ids there. -/
theorem sees_earlier_steps (h : jobSteps? workflow job = some all) (repository : Repository) :
    (∀ i rest, SeesSteps (contexts repository workflow (stepPath job i ++ rest)) (all.take i)) ∧
    (∀ rest, (∀ i below, rest ≠ .key "steps" :: .index i :: below) →
      SeesSteps (contexts repository workflow (jobPath job ++ rest)) all) ∧
    ∀ i rest repository' workflow' all' rest', jobSteps? workflow' job = some all' →
      (all.take i).filterMap stepId? = (all'.take i).filterMap stepId? →
      contexts repository workflow (stepPath job i ++ rest) "steps" =
        contexts repository' workflow' (stepPath job i ++ rest') "steps" := by
  refine ⟨fun i rest => ?_, fun rest hrest => ?_, ?_⟩
  · exact seesSteps_of_eq (contexts_steps_at repository h i rest)
  · refine seesSteps_of_eq ?_
    rw [contexts_steps repository h, stepOf?_eq_none hrest, upTo]
  · intro i rest repository' workflow' all' rest' h' hids
    rw [contexts_steps_at repository h, contexts_steps_at repository' h', hids]

def buildAndTest : List Value :=
  [.map [(.str "id", .str "Build")], .map [(.str "run", .str "make")],
    .map [(.str "id", .str "test")]]

def withJob (steps : List Value) : Value :=
  .map [(.str "jobs", .map [(.str "ci", .map [(.str "steps", .seq steps)])])]

theorem sees_earlier_steps_build :
    jobSteps? (withJob buildAndTest) "ci" = some buildAndTest ∧
    Declared (buildAndTest.take 2) "build" ∧ ¬Declared (buildAndTest.take 2) "test" ∧
    SeesSteps (contexts ⟨none, none, none, none⟩ (withJob buildAndTest)
      (stepPath "ci" 2 ++ [.key "run"])) (buildAndTest.take 2) ∧
    SeesSteps (contexts ⟨none, none, none, none⟩ (withJob buildAndTest)
      (jobPath "ci" ++ [.key "outputs", .key "x"])) buildAndTest ∧
    contexts ⟨none, none, none, none⟩ (withJob buildAndTest) (stepPath "ci" 2) "steps" =
      contexts ⟨some "me", none, none, none⟩ (withJob (buildAndTest.take 2))
        (stepPath "ci" 2 ++ [.key "if"]) "steps" := by
  have h : jobSteps? (withJob buildAndTest) "ci" = some buildAndTest := rfl
  have h' : jobSteps? (withJob (buildAndTest.take 2)) "ci" = some (buildAndTest.take 2) := rfl
  obtain ⟨hinside, houtside, hsame⟩ := sees_earlier_steps h ⟨none, none, none, none⟩
  exact ⟨h, by decide, by decide, hinside 2 _, houtside _ (by simp),
    hsame 2 [] _ _ _ _ h' rfl⟩

end WorkflowLint.Workflow
