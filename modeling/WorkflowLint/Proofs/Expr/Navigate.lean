import WorkflowLint.Proofs.Expr.Chain
import WorkflowLint.Proofs.Expr.Fields

/-! Computed values and contexts. A path takes a computed value apart and finds in it what it finds
in a context that holds the value; where the context has no place, the value has null. -/
namespace WorkflowLint

theorem find?_own_name {α : Type} {name : String} {entries : List (String × α)}
    {entry : String × α} (h : entries.find? (Text.sameName ·.1 name) = some entry) :
    entries.find? (·.1 == entry.1) = some entry := by
  induction entries with
  | nil => cases h
  | cons first rest ih =>
    by_cases hfirst : Text.sameName first.1 name = true
    · have heq : first = entry := by simpa [hfirst] using h
      simp [heq]
    · have hrest : rest.find? (Text.sameName ·.1 name) = some entry := by simpa [hfirst] using h
      have hne : first.1 ≠ entry.1 := by
        intro heq
        have hname : Text.sameName entry.1 name = true := by simpa using List.find?_some hrest
        exact hfirst (heq ▸ hname)
      simpa [hne] using ih hrest

namespace Json

theorem removeField_fst (name : String) (fields : List (String × Json)) :
    (removeField name fields).1 = field? name fields := by
  induction fields with
  | nil => rfl
  | cons first rest ih =>
    by_cases hname : first.1 = name
    · simp [removeField, field?, hname]
    · simpa [removeField, field?, hname] using ih

theorem removeField_snd {name : String} {fields : List (String × Json)}
    (h : (removeField name fields).1 = none) : (removeField name fields).2 = fields := by
  induction fields with
  | nil => rfl
  | cons first rest ih =>
    by_cases hname : first.1 = name
    · simp [removeField, hname] at h
    · simp only [removeField, hname, if_false] at h ⊢
      rw [ih h]

theorem takeNamed?_eq (name : String) (fields : List (String × Json)) :
    takeNamed? name fields = lookupName? name fields := by
  have hfound := removeField_fst name fields
  have hkept : (removeField name fields).1 = none → (removeField name fields).2 = fields :=
    removeField_snd
  unfold takeNamed? lookupName?
  cases hr : removeField name fields with
  | mk found left =>
    rw [hr] at hfound hkept
    cases hexact : fields.find? (·.1 == name) with
    | some entry =>
      have hvalue : found = some entry.2 := hfound.trans (by rw [field?, hexact, Option.map_some])
      rw [hvalue]
    | none =>
      have hnone : found = none := hfound.trans (by rw [field?, hexact, Option.map_none])
      obtain rfl : left = fields := hkept hnone
      simp only [hnone, List.find?_map, Function.comp_def]
      cases hother : left.find? (Text.sameName ·.1 name) with
      | none => rfl
      | some entry => simp [removeField_fst, field?, find?_own_name hother]

theorem take_eq (v : Json) (s : Segment) : v.take s = (v.step? s).getD .null := by
  cases v with
  | obj fields =>
    cases s with
    | key name => simp only [take, step?, takeNamed?_eq]
    | index i => rfl
  | arr items =>
    cases s with
    | key name => rfl
    | index i => by_cases hi : i < items.length <;> simp [take, step?, hi]
  | null | bool | num | str => cases s <;> rfl

theorem navigate_null (path : Path) : Json.null.navigate path = .null := by
  induction path with
  | nil => rfl
  | cons s rest ih => simpa only [navigate, take] using ih

theorem navigate_eq (v : Json) (path : Path) : v.navigate path = (v.at? path).getD .null := by
  induction path generalizing v with
  | nil => rfl
  | cons s rest ih =>
    rw [navigate, take_eq, at?]
    cases hs : v.step? s with
    | none => simpa only [Option.getD_none, Option.bind_none] using navigate_null rest
    | some w => simpa only [Option.getD_some, Option.bind_some] using ih w

theorem resolve_cases (v : Json) (path : Path) :
    v.resolve path = .known (v.navigate path) ∨
      v.resolve path = .unknown ∧ v.navigate path = .null := by
  rw [navigate_eq, resolve]
  cases hat : v.at? path with
  | some w => exact .inl rfl
  | none =>
    cases harray : v.indexesArray path
    · exact .inr ⟨by simp, rfl⟩
    · exact .inl (by simp)

end Json

namespace Expr

def onto : Expr → Expr → Expr
  | .property span target name, root => .property span (target.onto root) name
  | .index span target i, root => .index span (target.onto root) i
  | _, root => root

def isComputed : Expr → Bool
  | .context _ _ | .property _ _ _ | .index _ _ _ => false
  | _ => true

section
variable {env : Env} {root : Expr}

theorem access_computed (h : root.isComputed = true) :
    access env root = .ofValue (eval env root) := by
  have hvalue : ∃ o, access env root = .ofValue o := by
    cases root with
    | context | property | index => cases h
    | literal | call | apply | binary | not => exact ⟨_, by rw [access]⟩
  obtain ⟨o, ho⟩ := hvalue
  rw [eval_of_ofValue ho, ho]

theorem access_onto {o : Outcome} (h : access env root = .ofValue o) :
    ∀ e : Expr, access env (e.onto root) = ⟨.value o, (access env e).steps⟩
  | .property _ target _ => by
    rw [onto, access, access_onto h target, access]
    rfl
  | .index _ target _ => by
    rw [onto, access_index, access_onto h target, access_index]
    rfl
  | .context _ _ | .literal _ _ | .call _ _ _ | .apply _ _ _ | .binary _ _ _ _ | .not _ _ => by
    simp only [onto, h, access]
    rfl

theorem root_of_chainRoot {span : Span} {name : String} :
    ∀ {e : Expr}, chainRoot e = .context span name → (access env e).root = .context name
  | .property _ target _, h => by
    rw [access]
    exact root_of_chainRoot (e := target) h
  | .index _ target _, h => by
    rw [access]
    exact root_of_chainRoot (e := target) h
  | .context _ _, h => by
    cases h
    rw [access]
    rfl

namespace Access
variable {name : String} {v : Json} {span span' : Span} {steps : Except EvalError (List Step)}
variable (hr : env.resolve name = (ContextValue.known v).resolve)
include hr

theorem finish_value_of_context_ok {result : Evaluation}
    (h : finish env span ⟨.context name, steps⟩ = .ok result) :
    finish env span' ⟨.value (.ok (.known v)), steps⟩ = .ok result := by
  cases steps with
  | error x => cases h
  | ok steps =>
    cases hb : blocked? steps with
    | some e => simpa only [finish, hb] using h
    | none =>
      obtain ⟨path, rfl⟩ := exists_path hb
      rw [finish_path, lookUp, hr, ContextValue.resolve_known] at h
      rw [finish_value_path]
      obtain hknown | ⟨hunknown, -⟩ := v.resolve_cases path
      · simpa only [hknown] using h
      · simp [hunknown] at h

/-- Where the context fails, either a step has failed before, or the value has null there. -/
theorem finish_value_of_context_error {x : EvalError}
    (h : finish env span ⟨.context name, steps⟩ = .error x) :
    (∃ path : Path, steps = .ok (path.map .to)) ∧
      finish env span' ⟨.value (.ok (.known v)), steps⟩ = .ok (.known .null) ∨
    steps = .error x := by
  cases steps with
  | error y =>
    cases h
    exact .inr rfl
  | ok steps =>
    obtain ⟨path, rfl, hunknown, -⟩ := finish_context_error h
    rw [hr, ContextValue.resolve_known] at hunknown
    refine .inl ⟨⟨path, rfl⟩, ?_⟩
    rw [finish_value_path]
    obtain hknown | ⟨-, hnull⟩ := v.resolve_cases path
    · rw [hunknown] at hknown
      cases hknown
    · rw [hnull]

end Access
end

/-- A context that holds a value finds at a path what the value has there, or it finds nothing and
the value has null. So an access to the context comes to the same as its steps behind a computed
value, unless the context has no such place: then it fails, and behind the value it is null. -/
theorem navigate_agrees_with_context :
    (∀ (v : Json) (path : Path), v.resolve path = .known (v.navigate path) ∨
      v.resolve path = .unknown ∧ v.navigate path = .null) ∧
    ∀ (env : Env) (name : String) (v : Json) (root e : Expr) (span : Span),
      env.resolve name = (ContextValue.known v).resolve → root.isComputed = true →
      eval env root = .ok (.known v) → chainRoot e = .context span name →
      (∀ result, eval env e = .ok result → eval env (e.onto root) = .ok result) ∧
      ∀ x, eval env e = .error x →
        (∃ path, LeadsTo env e name path) ∧ eval env (e.onto root) = .ok (.known .null) ∨
        (¬∃ path, LeadsTo env e name path) ∧ eval env (e.onto root) = .error x := by
  refine ⟨Json.resolve_cases, fun env name v root e span hr hroot hv he => ?_⟩
  have hvalue : access env root = .ofValue (.ok (.known v)) := hv ▸ access_computed hroot
  have hcontext : access env e = ⟨.context name, (access env e).steps⟩ := by
    rw [← root_of_chainRoot he]
  simp only [eval, access_onto hvalue e]
  constructor
  · intro result hresult
    rw [hcontext] at hresult
    exact Access.finish_value_of_context_ok hr hresult
  · intro x hx
    rw [hcontext] at hx
    obtain ⟨⟨path, hsteps⟩, hnull⟩ | hsteps := Access.finish_value_of_context_error hr hx
    · rw [hsteps] at hcontext
      exact .inl ⟨⟨path, leadsTo_of_access hcontext⟩, hnull⟩
    · refine .inr ⟨?_, by rw [hsteps]; rfl⟩
      rintro ⟨path, hpath⟩
      rw [hpath.access_eq] at hsteps
      cases hsteps

def sizes : Json := .obj [("N", .arr [.num (.int 4), .num (.int 7)])]

def sizesOnly : Env where
  resolve := .ofProvider fun name => if name = "vars" then some (.known sizes) else none
  functions := .builtins

def readSizes : Expr :=
  .call ⟨0, 23⟩ "fromJson" [.literal ⟨9, 22⟩ (.string "\x7b\"N\":[4,7]\x7d")]

def secondSize : Expr :=
  .index ⟨0, 12⟩ (.property ⟨0, 6⟩ (.context ⟨0, 4⟩ "vars") "n") (.literal ⟨7, 11⟩ (.bool true))

def lostColours : Expr := .property ⟨0, 12⟩ (.context ⟨0, 4⟩ "vars") "colours"

/-- Behind the value that is read, the second size is found by its name in another case, and the
colours, which the context does not have, are null. -/
theorem navigate_agrees_with_context_sizes :
    eval sizesOnly readSizes = .ok (.known sizes) ∧
    eval sizesOnly secondSize = .ok (.known (.num (.int 7))) ∧
    eval sizesOnly (secondSize.onto readSizes) = .ok (.known (.num (.int 7))) ∧
    eval sizesOnly lostColours = .error ⟨.unknownAccess "vars.colours", ⟨0, 12⟩⟩ ∧
    eval sizesOnly (lostColours.onto readSizes) = .ok (.known .null) := by
  have hread : eval sizesOnly readSizes = .ok (.known sizes) := rfl
  have hsecond : eval sizesOnly secondSize = .ok (.known (.num (.int 7))) := rfl
  have hlost : eval sizesOnly lostColours = .error ⟨.unknownAccess "vars.colours", ⟨0, 12⟩⟩ := rfl
  have hleads : LeadsTo sizesOnly lostColours "vars" [.key "colours"] := .property .context
  have hvars : sizesOnly.resolve "vars" = (ContextValue.known sizes).resolve := rfl
  have hagrees (e : Expr) (he : chainRoot e = .context ⟨0, 4⟩ "vars") :=
    navigate_agrees_with_context.2 sizesOnly "vars" sizes readSizes e _ hvars rfl hread he
  refine ⟨hread, hsecond, (hagrees secondSize rfl).1 _ hsecond, hlost, ?_⟩
  obtain ⟨-, hnull⟩ | ⟨hnot, -⟩ := (hagrees lostColours rfl).2 _ hlost
  · exact hnull
  · exact absurd ⟨_, hleads⟩ hnot

end Expr
end WorkflowLint
