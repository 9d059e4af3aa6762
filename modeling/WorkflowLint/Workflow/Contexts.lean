import WorkflowLint.Check.Walk
import WorkflowLint.Expr.Context
import WorkflowLint.Marker
import WorkflowLint.Yaml.ToJson

/-! The contexts of a workflow. What an expression can use depends on its place: only the steps
before its own, a matrix only in a job that has one, and of the variables those of its own job and
step. -/
namespace WorkflowLint

/-- The repository of a workflow. Names that are not given cannot be told. -/
structure Repository where
  owner : Option String
  name : Option String
  secrets : Option (List String)
  vars : Option (List String)
deriving DecidableEq, Repr

namespace Workflow
open Yaml (Value)

def githubFields : List String :=
  ["action", "action_path", "action_ref", "action_repository", "action_status", "actor",
   "actor_id", "api_url", "base_ref", "env", "event", "event_name", "event_path", "graphql_url",
   "head_ref", "job", "path", "ref", "ref_name", "ref_protected", "ref_type", "repository",
   "repository_id", "repository_owner", "repository_owner_id", "repositoryUrl", "retention_days",
   "run_attempt", "run_id", "run_number", "secret_source", "server_url", "sha", "token",
   "triggering_actor", "workflow", "workflow_ref", "workflow_sha", "workspace"]

def jobFields : List String := ["container", "services", "status"]

def runnerFields : List String :=
  ["arch", "debug", "environment", "name", "os", "temp", "tool_cache"]

def strategyFields : List String := ["fail-fast", "job-index", "job-total", "max-parallel"]

structure Scope where
  workflow : Value
  path : Path
  job : Option Value
  step : Option Nat

namespace Scope

def ofPath (workflow : Value) (path : Path) : Scope :=
  let job :=
    if path.key? 0 = some "jobs" && (path.key? 1).isSome then workflow.at? (path.take 2) else none
  let step := if job.isSome && path.key? 2 = some "steps" then path.index? 3 else none
  ⟨workflow, path, job, step⟩

end Scope

def optionalNames : Option (List String) → ContextValue
  | some names => .names names
  | none => .dynamic

def textKeys (v : Option Value) : List String :=
  ((v.bind Value.entries?).getD []).filterMap fun (k, _) => k.text?

def contextValue (v : Value) : ContextValue :=
  if v.text?.any fun s => hasMarkers s.toList then .dynamic
  else
    match v.toJson? with
    | some json => .known json
    | none => .dynamic

def github (repository : Repository) : ContextValue :=
  .closed (githubFields.map fun field =>
    let known :=
      if field = "repository" then repository.name
      else if field = "repository_owner" then repository.owner
      else none
    (field, match known with
      | some text => .known (.str text)
      | none => .dynamic))

/-- The blocks of variables that a place sees, outermost first. A block sees only those around
it. -/
def envBlocks (scope : Scope) : List Value :=
  let outer := if scope.path.key? 0 = some "env" then none else scope.workflow.get? "env"
  let ofJob := scope.job.bind fun job =>
    if scope.path.key? 2 = some "env" then none else job.get? "env"
  let ofStep := scope.job.bind fun job => scope.step.bind fun i =>
    (job.get? "steps").bind fun steps => (steps.item? i).bind fun step =>
      if scope.path.key? 4 = some "env" then none else step.get? "env"
  outer.toList ++ ofJob.toList ++ ofStep.toList

def envFields (block : Value) : List (String × ContextValue) :=
  (block.entries?.getD []).filterMap fun (k, v) => k.text?.map fun name => (name, contextValue v)

def env (scope : Scope) : ContextValue := .closed ((envBlocks scope).flatMap envFields)

def eventPart (workflow : Value) (event key : String) : Option Value :=
  ((workflow.get? "on").bind (·.get? event)).bind (·.get? key)

def secrets (workflow : Value) (repository : Repository) : ContextValue :=
  optionalNames (repository.secrets.map fun names =>
    "GITHUB_TOKEN" :: names ++ textKeys (eventPart workflow "workflow_call" "secrets"))

def inputs (workflow : Value) : ContextValue :=
  .names (["workflow_dispatch", "workflow_call"].flatMap fun event =>
    textKeys (eventPart workflow event "inputs"))

/-- The jobs can be used only where the outputs of a workflow that is called are described. -/
def jobs? (scope : Scope) : Option ContextValue :=
  if scope.path.key? 0 = some "on" && scope.path.key? 1 = some "workflow_call" then
    some (.closed ((textKeys (scope.workflow.get? "jobs")).map fun id =>
      (id, .closed [("outputs", .anyFields), ("result", .dynamic)])))
  else none

def visibleSteps (job : Value) (current : Option Nat) : List Value :=
  let steps := ((job.get? "steps").bind Value.items?).getD []
  match current with
  | some i => steps.take i
  | none => steps

def steps (job : Value) (current : Option Nat) : ContextValue :=
  .closed ((visibleSteps job current).filterMap fun step =>
    ((step.get? "id").bind Value.text?).map fun id =>
      (id, .closed [("outputs", .anyFields), ("outcome", .dynamic), ("conclusion", .dynamic)]))

def neededIds (job : Value) : List String :=
  match job.get? "needs" with
  | some (.str id) => [id]
  | some (.seq ids) => ids.filterMap Value.text?
  | _ => []

/-- A job that does not exist may have any outputs: it is reported where it is named. -/
def needs (workflow job : Value) : ContextValue :=
  .closed ((neededIds job).map fun id =>
    let outputs := match (workflow.get? "jobs").bind (·.get? id) with
      | some needed => .names (textKeys (needed.get? "outputs"))
      | none => .anyFields
    (id, .closed [("outputs", outputs), ("result", .dynamic)]))

def matrixNames (matrix : Value) : List String :=
  let own := (textKeys (some matrix)).filter fun name => name ≠ "include" && name ≠ "exclude"
  let included := ((matrix.get? "include").bind Value.items?).getD []
  (included.flatMap fun entry => textKeys (some entry)).foldl
    (fun names name => if names.contains name then names else names ++ [name]) own

/-- A matrix that is no mapping may have any variables. -/
def matrix? (job : Value) : Option ContextValue :=
  ((job.get? "strategy").bind (·.get? "matrix")).map fun matrix =>
    if matrix.entries?.isSome then .names (matrixNames matrix) else .dynamic

def contexts (repository : Repository) : ContextFactory := fun workflow path name =>
  let scope := Scope.ofPath workflow path
  match name with
  | "github" => some (github repository)
  | "env" => some (env scope)
  | "secrets" => some (secrets workflow repository)
  | "vars" => some (optionalNames repository.vars)
  | "inputs" => some (inputs workflow)
  | "jobs" => jobs? scope
  | "job" => scope.job.map fun _ => .names jobFields
  | "runner" => scope.job.map fun _ => .names runnerFields
  | "strategy" => scope.job.map fun _ => .names strategyFields
  | "steps" => scope.job.map fun job => steps job scope.step
  | "needs" => scope.job.map fun job => needs workflow job
  | "matrix" => scope.job.bind matrix?
  | _ => none

end Workflow
end WorkflowLint
