import WorkflowLint.Schema.Shape

/-! The jobs that a job can depend on. -/
namespace WorkflowLint.Schema
open Yaml (Value)

def jobValue? (current : Option String) (entry : Value × Value) : Option AllowedValue := do
  let id ← entry.1.text?
  if some id = current then none
  else some ⟨id, (entry.2.get? "name").bind Value.text?⟩

/-- All jobs of the workflow but the one that the path leads into. -/
def otherJobs : ValueProvider := fun workflow path =>
  match workflow.get? "jobs" with
  | some (.map jobs) => .ok (jobs.filterMap (jobValue? (path.key? 1)))
  | some .null | none => .ok []
  | some _ => .error (.missingValue [.key "jobs"])

end WorkflowLint.Schema
