import WorkflowLint.Proofs.Workflow.Variables

/-! The variables of a matrix. One that is an expression as a whole may have any. One that is a
mapping has its own and those of its extra combinations, and no others, though an extra combination
that is an expression may bring in any. -/
namespace WorkflowLint.Workflow
open Yaml (Value)
open WorkflowLint.Expr (Resolver)

def matrixOf? (job : Value) : Option Value := (job.get? "strategy").bind (·.get? "matrix")

def included (matrix : Value) : List Value := ((matrix.get? "include").bind Value.items?).getD []

/-- The matrix is an expression, or its extra combinations are, or one of them is. -/
def Computed (matrix : Value) : Prop :=
  IsExpression matrix ∨ (∃ value, matrix.get? "include" = some value ∧ IsExpression value) ∨
    ∃ entry ∈ included matrix, IsExpression entry

def HasVariable (matrix : Value) (name : String) : Prop :=
  (∃ key, HasKey matrix key ∧ (key ≠ "include" ∧ key ≠ "exclude") ∧
    Text.sameName key name = true) ∨
  ∃ entry ∈ included matrix, ∃ key, HasKey entry key ∧ Text.sameName key name = true

def matrixAt (repository : Repository) (workflow : Value) (place : Path) : Path → Resolution :=
  Resolver.ofProvider (contexts repository workflow place) "matrix"

/-! The names of the variables -/

theorem mem_foldl_addNew {more names : List String} {name : String} :
    name ∈ more.foldl (fun all n => if all.contains n then all else all ++ [n]) names ↔
      name ∈ names ∨ name ∈ more := by
  induction more generalizing names with
  | nil => simp
  | cons first more ih =>
    rw [List.foldl_cons, ih]
    by_cases hfirst : first ∈ names
    · have hname : name = first → name ∈ names := by
        rintro rfl
        exact hfirst
      simp only [List.contains_iff_mem, hfirst, if_true, List.mem_cons]
      rw [← or_assoc, or_iff_left_of_imp hname]
    · simp only [List.contains_iff_mem, hfirst, if_false, List.mem_append, List.mem_cons,
        List.not_mem_nil, or_false, or_assoc]

theorem mem_matrixNames {matrix : Value} {name : String} : name ∈ matrixNames matrix ↔
    (HasKey matrix name ∧ name ≠ "include" ∧ name ≠ "exclude") ∨
      ∃ entry ∈ included matrix, HasKey entry name := by
  rw [matrixNames, mem_foldl_addNew, List.mem_filter, List.mem_flatMap]
  simp only [included, Bool.and_eq_true, decide_eq_true_eq, mem_textKeys_iff, Option.some.injEq,
    exists_eq_left']

theorem hasVariable_iff {matrix : Value} {name : String} :
    HasVariable matrix name ↔ (matrixNames matrix).any (Text.sameName · name) = true := by
  simp only [List.any_eq_true, mem_matrixNames, HasVariable]
  constructor
  · rintro (⟨key, hkey, hown, hname⟩ | ⟨entry, hentry, key, hkey, hname⟩)
    · exact ⟨key, .inl ⟨hkey, hown⟩, hname⟩
    · exact ⟨key, .inr ⟨entry, hentry, hkey⟩, hname⟩
  · rintro ⟨key, ⟨hkey, hown⟩ | ⟨entry, hentry, hkey⟩, hname⟩
    · exact .inl ⟨key, hkey, hown, hname⟩
    · exact .inr ⟨entry, hentry, key, hkey, hname⟩

/-! A matrix that is computed -/

theorem IsExpression.entries?_eq_none {value : Value} (h : IsExpression value) :
    value.entries? = none := by
  obtain ⟨text, htext, -⟩ := h
  unfold Value.text? at htext
  unfold Value.entries?
  split at htext
  · next huntag => rw [huntag]
  · cases htext

theorem entries?_of_get? {value found : Value} {key : String} (h : value.get? key = some found) :
    value.entries?.isSome = true := by
  obtain ⟨entries, hentries, -⟩ := Option.bind_eq_some_iff.mp h
  rw [hentries]
  rfl

theorem Computed.whole_or_mapping {matrix : Value} (h : Computed matrix) :
    IsExpression matrix ∨ matrix.entries?.isSome = true := by
  obtain h | ⟨value, hvalue, -⟩ | ⟨entry, hentry, -⟩ := h
  · exact .inl h
  · exact .inr (entries?_of_get? hvalue)
  · cases hinclude : matrix.get? "include" with
    | none => simp [included, hinclude] at hentry
    | some value => exact .inr (entries?_of_get? hinclude)

section
variable {workflow job matrix : Value} {name : String}

theorem contexts_matrix (hjob : workflow.at? (jobPath name) = some job)
    (hmatrix : matrixOf? job = some matrix) (repository : Repository) (place : Path) :
    contexts repository workflow (jobPath name ++ place) "matrix" =
      some (if matrix.entries?.isSome then .names (matrixNames matrix) else .dynamic) := by
  have hvalue : matrix? job =
      some (if matrix.entries?.isSome then .names (matrixNames matrix) else .dynamic) := by
    have hget : (job.get? "strategy").bind (·.get? "matrix") = some matrix := hmatrix
    rw [matrix?, hget, Option.map_some]
  simp only [contexts, scope_in_job hjob, Option.bind_some, hvalue]

/-- In every place of a job, a matrix that is no mapping may have any variable, and one that is a
mapping has its own and those of the extra combinations that are mappings themselves. So of the
matrices in which something is computed, the one that is never found to lack a variable is the one
that is an expression as a whole. -/
theorem matrix_by_names (hjob : workflow.at? (jobPath name) = some job)
    (hmatrix : matrixOf? job = some matrix) (repository : Repository) (place : Path) :
    (matrix.entries? = none → ∀ wanted rest,
      matrixAt repository workflow (jobPath name ++ place) (.key wanted :: rest) =
        .indeterminate) ∧
    (matrix.entries?.isSome = true → ∀ wanted rest,
      (HasVariable matrix wanted →
        matrixAt repository workflow (jobPath name ++ place) (.key wanted :: rest) =
          .indeterminate) ∧
      (¬HasVariable matrix wanted →
        matrixAt repository workflow (jobPath name ++ place) (.key wanted :: rest) =
          .unknown)) ∧
    (Computed matrix →
      ((∀ wanted, matrixAt repository workflow (jobPath name ++ place) [.key wanted] ≠ .unknown) ↔
        IsExpression matrix)) := by
  have hcontext := contexts_matrix hjob hmatrix repository place
  have hresolve (path : Path) :
      matrixAt repository workflow (jobPath name ++ place) path =
        (if matrix.entries?.isSome then ContextValue.names (matrixNames matrix)
          else .dynamic).resolve path := Resolver.ofProvider_of_eq hcontext path
  simp only [hresolve]
  refine ⟨fun hnone wanted rest => ?_, fun hsome wanted rest => ⟨fun hv => ?_, fun hv => ?_⟩,
    fun hcomputed => ⟨fun hnever => ?_, fun hexpression wanted => ?_⟩⟩
  · rw [hnone]
    exact ContextValue.resolve_dynamic _
  · rw [if_pos hsome, ContextValue.resolve_names, if_pos (hasVariable_iff.mp hv)]
  · rw [if_pos hsome, ContextValue.resolve_names, if_neg (mt hasVariable_iff.mpr hv)]
  · -- a mapping has finitely many variables, and any other name is found to be none of them
    refine hcomputed.whole_or_mapping.resolve_right fun hsome => ?_
    obtain ⟨wanted, hwanted⟩ := exists_other_name (matrixNames matrix)
    have hany : ¬(matrixNames matrix).any (Text.sameName · wanted) = true := by
      simpa [List.any_eq_true] using hwanted
    refine hnever wanted ?_
    rw [if_pos hsome, ContextValue.resolve_names, if_neg hany]
  · rw [hexpression.entries?_eq_none]
    intro hunknown
    cases hunknown

end

def jobWithMatrix (matrix : Value) : Value :=
  .map [(.str "strategy", .map [(.str "matrix", matrix)])]

def workflowWithMatrix (matrix : Value) : Value :=
  .map [(.str "jobs", .map [(.str "test", jobWithMatrix matrix)])]

def literalMatrix : Value :=
  .map [(.str "os", .seq [.str "linux"]), (.str "include", .seq [.map [(.str "Node", .str "20")]])]

theorem matrix_by_names_literal :
    (workflowWithMatrix literalMatrix).at? (jobPath "test") = some (jobWithMatrix literalMatrix) ∧
    HasVariable literalMatrix "node" ∧ ¬HasVariable literalMatrix "include" ∧
    matrixAt anyRepository (workflowWithMatrix literalMatrix) (jobPath "test" ++ [.key "name"])
      [.key "node"] = .indeterminate ∧
    matrixAt anyRepository (workflowWithMatrix literalMatrix) (jobPath "test" ++ [.key "name"])
      [.key "include"] = .unknown ∧
    ∀ wanted, matrixAt anyRepository (workflowWithMatrix expressionText)
      (jobPath "test" ++ [.key "name"]) [.key wanted] ≠ .unknown := by
  have hnode : HasVariable literalMatrix "node" := hasVariable_iff.mpr (by decide)
  have hinclude : ¬HasVariable literalMatrix "include" := mt hasVariable_iff.mp (by decide)
  have hexpression : IsExpression expressionText := isExpression_iff.mpr (by decide)
  have hjob (matrix : Value) :
      (workflowWithMatrix matrix).at? (jobPath "test") = some (jobWithMatrix matrix) := rfl
  obtain ⟨-, hnames, -⟩ := matrix_by_names (hjob literalMatrix) rfl anyRepository [.key "name"]
  obtain ⟨-, -, hnever⟩ := matrix_by_names (hjob expressionText) rfl anyRepository [.key "name"]
  exact ⟨hjob literalMatrix, hnode, hinclude, (hnames rfl "node" []).1 hnode,
    (hnames rfl "include" []).2 hinclude, (hnever (.inl hexpression)).mpr hexpression⟩

def computedInclude : Value := .map [(.str "include", expressionText)]

def computedEntry : Value := .map [(.str "include", .seq [expressionText])]

/-- What the extra combinations bring in is said to be missing, though it cannot be known. -/
theorem computed_include_unknown :
    Computed computedInclude ∧ Computed computedEntry ∧
    matrixAt anyRepository (workflowWithMatrix computedInclude) (jobPath "test" ++ [.key "name"])
      [.key "os"] = .unknown ∧
    matrixAt anyRepository (workflowWithMatrix computedEntry) (jobPath "test" ++ [.key "name"])
      [.key "os"] = .unknown := by
  have hexpression : IsExpression expressionText := isExpression_iff.mpr (by decide)
  have hentry : expressionText ∈ included computedEntry := List.mem_singleton.mpr rfl
  exact ⟨.inr (.inl ⟨expressionText, rfl, hexpression⟩),
    .inr (.inr ⟨expressionText, hentry, hexpression⟩), rfl, rfl⟩

end WorkflowLint.Workflow
