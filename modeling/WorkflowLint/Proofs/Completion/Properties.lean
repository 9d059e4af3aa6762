import WorkflowLint.Completion
import WorkflowLint.Proofs.Expr.Blame
import WorkflowLint.Proofs.Expr.Extension
import WorkflowLint.Proofs.Expr.Fields

/-! Properties that are offered. A name is offered only where an access to it is no error, and
every name is offered under which a value is known. -/
namespace WorkflowLint

theorem exists_lookupName? {α : Type} {name : String} {entries : List (String × α)}
    (h : name ∈ entries.map Prod.fst) : ∃ value, lookupName? name entries = some value := by
  obtain ⟨entry, hentry, rfl⟩ := List.mem_map.mp h
  refine Option.ne_none_iff_exists'.mp fun hnone => ?_
  have hfalse := lookupName?_eq_none.mp hnone entry hentry
  rw [Text.sameName_refl] at hfalse
  cases hfalse

theorem Json.resolve_key_eq_known {v w : Json} {path : Path} {name : String} :
    v.resolve (path ++ [.key name]) = .known w ↔
      ∃ fields, v.at? path = some (.obj fields) ∧ lookupName? name fields = some w := by
  have harray : v.indexesArray (path ++ [.key name]) = false := by simp [indexesArray]
  have hat : v.at? (path ++ [.key name]) = (v.at? path).bind (·.step? (.key name)) := by
    simp [at?_append, at?]
  have hresolve : v.resolve (path ++ [.key name]) = .known w ↔
      (v.at? path).bind (·.step? (.key name)) = some w := by
    rw [resolve, hat, harray]
    cases (v.at? path).bind (·.step? (.key name)) <;> simp
  rw [hresolve, Option.bind_eq_some_iff]
  constructor
  · rintro ⟨inner, hinner, hstep⟩
    cases inner with
    | obj fields => exact ⟨fields, hinner, hstep⟩
    | null | bool | num | str | arr => cases hstep
  · rintro ⟨fields, hfields, hname⟩
    exact ⟨.obj fields, hfields, hname⟩

namespace ContextValue
variable {c : ContextValue} {path : Path} {name : String}

theorem resolve_nil_ne_unknown (c : ContextValue) : c.resolve [] ≠ .unknown := by
  cases hw : c.whole? <;> simp [resolve, hw]

-- The induction is that of the names: down the fields of objects, to an object or into a value.
theorem resolve_of_mem_fieldNames (h : name ∈ c.fieldNames path) :
    c.resolve (path ++ [.key name]) ≠ .unknown := by
  fun_induction c.fieldNames path with
  | case1 fields isOpen =>
    obtain ⟨child, hchild⟩ := exists_lookupName? h
    rw [List.nil_append, resolve_object_key, hchild]
    exact child.resolve_nil_ne_unknown
  | case2 fields isOpen step rest child hchild ih =>
    rw [List.cons_append, resolve_object_key, hchild]
    exact ih h
  | case4 v path fields hat =>
    obtain ⟨w, hw⟩ := exists_lookupName? h
    rw [resolve_known, Json.resolve_key_eq_known.mpr ⟨fields, hat, hw⟩]
    simp
  | case3 | case5 | case6 => cases h

theorem exists_mem_fieldNames {v : Json} (h : c.resolve (path ++ [.key name]) = .known v) :
    ∃ offered ∈ c.fieldNames path, Text.sameName offered name = true := by
  fun_induction c.fieldNames path with
  | case1 fields isOpen =>
    rw [List.nil_append, resolve_object_key] at h
    cases hl : lookupName? name fields with
    | none => cases isOpen <;> simp [hl] at h
    | some child =>
      obtain ⟨field, hfield, hname, -⟩ := sameName_of_lookupName? hl
      exact ⟨field.1, List.mem_map_of_mem hfield, hname⟩
  | case2 fields isOpen step rest child hchild ih =>
    rw [List.cons_append, resolve_object_key, hchild] at h
    exact ih h
  | case3 fields isOpen step rest hnone =>
    rw [List.cons_append, resolve_object_key, hnone] at h
    cases isOpen <;> cases h
  | case4 w path fields hat =>
    rw [resolve_known] at h
    obtain ⟨own, hown, hl⟩ := Json.resolve_key_eq_known.mp h
    obtain rfl : fields = own := by simpa [hat] using hown
    obtain ⟨field, hfield, hname, -⟩ := sameName_of_lookupName? hl
    exact ⟨field.1, List.mem_map_of_mem hfield, hname⟩
  | case5 w path hnot =>
    rw [resolve_known] at h
    obtain ⟨own, hown, -⟩ := Json.resolve_key_eq_known.mp h
    exact absurd hown (hnot own)
  | case6 c path hknown hobject hkey =>
    -- all that is left is a dynamic value, and an index into an object
    cases c with
    | dynamic => simp [resolve_dynamic] at h
    | known w => exact absurd rfl (hknown w)
    | object fields isOpen =>
      match path with
      | [] => exact absurd rfl (hobject fields isOpen rfl)
      | .key step :: rest => exact absurd rfl (hkey fields isOpen step rest rfl)
      | .index i :: rest => cases isOpen <;> cases h

end ContextValue

namespace Expr
variable {env : Env} {e : Expr} {name : String} {path : Path}

theorem LeadsTo.succeeds (h : LeadsTo env e name path) (hr : env.resolve name path ≠ .unknown) :
    Succeeds env e := by
  rw [Succeeds, h.eval_eq, Access.lookUp]
  cases hresolve : env.resolve name path with
  | known v => exact ⟨_, rfl⟩
  | indeterminate => exact ⟨_, rfl⟩
  | unknown => exact absurd hresolve hr

theorem LeadsTo.resolve_eq_known {v : Json} (h : LeadsTo env e name path)
    (hv : eval env e = .ok (.known v)) : env.resolve name path = .known v := by
  rw [h.eval_eq, Access.lookUp] at hv
  cases hresolve : env.resolve name path with
  | known w => simpa [hresolve] using hv
  | indeterminate => simp [hresolve] at hv
  | unknown => simp [hresolve] at hv

end Expr

namespace Completion
open WorkflowLint.Expr

def Accesses (env : Env) (root : String) (names : List String) (e : Expr) : Prop :=
  LeadsTo env e (Text.asciiLower root) (names.map .key)

section
variable {provider : ContextProvider} {fs : Functions} {before : List Char} {root : String}
variable {rest : List String} {e : Expr}

theorem succeeds_of_offered (hchain : chainNames before = root :: rest) {item : Completion}
    (hitem : item ∈ inExpression provider before)
    (he : Accesses ⟨.ofProvider provider, fs⟩ root (rest ++ [item.label]) e) :
    Succeeds ⟨.ofProvider provider, fs⟩ e := by
  refine he.succeeds ?_
  simp only [inExpression, hchain] at hitem
  cases hp : provider (Text.asciiLower root) with
  | none => simp [hp] at hitem
  | some c =>
    simp only [hp] at hitem
    obtain ⟨name, hname, rfl⟩ := List.mem_map.mp hitem
    simpa [Resolver.ofProvider, hp] using ContextValue.resolve_of_mem_fieldNames hname

theorem exists_offered (hchain : chainNames before = root :: rest) {name : String} {v : Json}
    (he : Accesses ⟨.ofProvider provider, fs⟩ root (rest ++ [name]) e)
    (hv : eval ⟨.ofProvider provider, fs⟩ e = .ok (.known v)) :
    ∃ item ∈ inExpression provider before,
      item.kind = .property ∧ Text.sameName item.label name = true := by
  have hknown := he.resolve_eq_known hv
  simp only [inExpression, hchain]
  cases hp : provider (Text.asciiLower root) with
  | none => simp [Resolver.ofProvider, hp] at hknown
  | some c =>
    simp only [Resolver.ofProvider, hp, List.map_append, List.map_cons, List.map_nil] at hknown
    obtain ⟨offered, hmem, hname⟩ := ContextValue.exists_mem_fieldNames hknown
    exact ⟨⟨offered, .property, none⟩, List.mem_map_of_mem hmem, rfl, hname⟩

end

/-- The names of the fields at a path can all be followed, and under no other name, in letters of
either case, is a value known. So behind a chain of names whatever is offered can be written
without an error, and whatever has a known value is offered. -/
theorem offers_agree_with_evaluation :
    (∀ (c : ContextValue) (path : Path),
      (∀ name ∈ c.fieldNames path, c.resolve (path ++ [.key name]) ≠ .unknown) ∧
      ∀ name v, c.resolve (path ++ [.key name]) = .known v →
        ∃ offered ∈ c.fieldNames path, Text.sameName offered name = true) ∧
    ∀ (provider : ContextProvider) (fs : Functions) (before : List Char) (root : String)
      (rest : List String), chainNames before = root :: rest →
      (∀ item ∈ inExpression provider before, ∀ e,
        Accesses ⟨.ofProvider provider, fs⟩ root (rest ++ [item.label]) e →
        Succeeds ⟨.ofProvider provider, fs⟩ e) ∧
      ∀ name v e, Accesses ⟨.ofProvider provider, fs⟩ root (rest ++ [name]) e →
        eval ⟨.ofProvider provider, fs⟩ e = .ok (.known v) →
        ∃ item ∈ inExpression provider before,
          item.kind = .property ∧ Text.sameName item.label name = true := by
  refine ⟨fun c path => ⟨?_, ?_⟩, fun provider fs before root rest hchain => ⟨?_, ?_⟩⟩
  · exact fun name hname => ContextValue.resolve_of_mem_fieldNames hname
  · exact fun name v hv => ContextValue.exists_mem_fieldNames hv
  · exact fun item hitem e he => succeeds_of_offered hchain hitem he
  · exact fun name v e he hv => exists_offered hchain he hv

def builtStep : ContextValue :=
  .object [("outputs", .known (.obj [("dir", .str "out")])), ("outcome", .dynamic)] true

def builtSteps : ContextProvider
  | "steps" => some (.object [("build", builtStep)] false)
  | _ => none

def inBuild (name : String) : Expr :=
  .property ⟨0, 12 + name.length⟩ (.property ⟨0, 11⟩ (.context ⟨0, 5⟩ "steps") "BUILD") name

theorem offers_agree_with_evaluation_build :
    chainNames "1 == Steps.BUILD.ou".toList = ["Steps", "BUILD"] ∧
    (⟨"outcome", .property, none⟩ ∈ inExpression builtSteps "1 == Steps.BUILD.ou".toList) ∧
    Succeeds ⟨.ofProvider builtSteps, .builtins⟩ (inBuild "outcome") ∧
    eval ⟨.ofProvider builtSteps, .builtins⟩ (inBuild "OUTPUTS") =
      .ok (.known (.obj [("dir", .str "out")])) ∧
    ∃ item ∈ inExpression builtSteps "1 == Steps.BUILD.ou".toList,
      item.kind = .property ∧ Text.sameName item.label "OUTPUTS" = true := by
  have hchain : chainNames "1 == Steps.BUILD.ou".toList = ["Steps", "BUILD"] := by decide
  have hoffers : inExpression builtSteps "1 == Steps.BUILD.ou".toList =
      [⟨"outputs", .property, none⟩, ⟨"outcome", .property, none⟩] := by
    have hcontext : builtSteps (Text.asciiLower "Steps") =
        some (.object [("build", builtStep)] false) := rfl
    have hstep : lookupName? "BUILD" [("build", builtStep)] = some builtStep := rfl
    have hfields : builtStep.fieldNames [] = ["outputs", "outcome"] := by
      rw [builtStep, ContextValue.fieldNames]
      rfl
    simp only [inExpression, hchain, hcontext, List.map_cons, List.map_nil,
      ContextValue.fieldNames, hstep, hfields]
  have hoffered : (⟨"outcome", .property, none⟩ : Completion) ∈
      inExpression builtSteps "1 == Steps.BUILD.ou".toList := by
    rw [hoffers]
    decide
  have haccess (name : String) : Accesses ⟨.ofProvider builtSteps, .builtins⟩ "Steps"
      ["BUILD", name] (inBuild name) := .property (.property .context)
  have hvalue : eval ⟨.ofProvider builtSteps, .builtins⟩ (inBuild "OUTPUTS") =
      .ok (.known (.obj [("dir", .str "out")])) := rfl
  obtain ⟨hsucceeds, hknown⟩ :=
    offers_agree_with_evaluation.2 builtSteps .builtins _ _ _ hchain
  exact ⟨hchain, hoffered, hsucceeds _ hoffered _ (haccess _), hvalue,
    hknown _ _ _ (haccess _) hvalue⟩

end Completion
end WorkflowLint
