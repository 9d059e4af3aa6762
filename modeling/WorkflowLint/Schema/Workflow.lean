import WorkflowLint.Schema.Needs

/-! The shape of a workflow. -/
namespace WorkflowLint.Schema
open Shape

def runnerLabels : List (String × String) :=
  [("ubuntu-latest", "Latest Ubuntu runner"),
   ("ubuntu-24.04", "Ubuntu 24.04 runner"),
   ("ubuntu-22.04", "Ubuntu 22.04 runner"),
   ("ubuntu-20.04", "Ubuntu 20.04 runner"),
   ("windows-latest", "Latest Windows Server runner"),
   ("windows-2022", "Windows Server 2022 runner"),
   ("windows-2019", "Windows Server 2019 runner"),
   ("macos-latest", "Latest macOS runner"),
   ("macos-14", "macOS 14 runner"),
   ("macos-13", "macOS 13 runner"),
   ("self-hosted", "Any self-hosted runner"),
   ("linux", "Self-hosted runner on Linux"),
   ("windows", "Self-hosted runner on Windows"),
   ("macos", "Self-hosted runner on macOS"),
   ("x64", "Self-hosted runner on x64"),
   ("arm", "Self-hosted runner on ARM32"),
   ("arm64", "Self-hosted runner on ARM64")]

def events : List (String × String) :=
  [("branch_protection_rule", "Branch protection rules changed"),
   ("check_run", "Check run activity"),
   ("check_suite", "Check suite activity"),
   ("create", "A branch or tag was created"),
   ("delete", "A branch or tag was deleted"),
   ("deployment", "A deployment was created"),
   ("deployment_status", "A deployment status was provided"),
   ("discussion", "Discussion activity"),
   ("discussion_comment", "Discussion comment activity"),
   ("fork", "The repository was forked"),
   ("gollum", "A wiki page was created or updated"),
   ("issue_comment", "Issue or pull request comment activity"),
   ("issues", "Issue activity"),
   ("label", "Label activity"),
   ("merge_group", "A pull request was added to a merge queue"),
   ("milestone", "Milestone activity"),
   ("page_build", "A GitHub Pages build ran"),
   ("public", "The repository became public"),
   ("pull_request", "Pull request activity"),
   ("pull_request_review", "Pull request review activity"),
   ("pull_request_review_comment", "Pull request review comment activity"),
   ("pull_request_target", "Pull request activity, run in the context of the base"),
   ("push", "Commits or tags were pushed"),
   ("registry_package", "Package activity"),
   ("release", "Release activity"),
   ("repository_dispatch", "A repository dispatch event was sent through the API"),
   ("schedule", "Scheduled run"),
   ("status", "A commit status changed"),
   ("watch", "The repository was starred"),
   ("workflow_call", "Called by another workflow"),
   ("workflow_dispatch", "Manually triggered"),
   ("workflow_run", "Another workflow ran")]

def permissionScopes : List String :=
  ["actions",
   "attestations",
   "checks",
   "contents",
   "deployments",
   "discussions",
   "id-token",
   "issues",
   "packages",
   "pages",
   "pull-requests",
   "repository-projects",
   "security-events",
   "statuses"]

def described (entries : List (String × String)) : List AllowedValue :=
  entries.map fun (name, text) => ⟨name, some text⟩

def named (names : List String) : List AllowedValue := names.map fun name => ⟨name, none⟩

def strings : Shape := list scalar

def env : Shape := (openMap scalar).describe "Environment variables"

def typeFilter : List (String × Shape) :=
  [("types", strings.describe "Activity types that trigger the workflow")]

def refFilters : List (String × Shape) :=
  [("branches", strings.describe "Branch name patterns to include"),
   ("branches-ignore", strings.describe "Branch name patterns to exclude"),
   ("tags", strings.describe "Tag name patterns to include"),
   ("tags-ignore", strings.describe "Tag name patterns to exclude"),
   ("paths", strings.describe "File path patterns to include"),
   ("paths-ignore", strings.describe "File path patterns to exclude")]

def inputKeys : List (String × Shape) :=
  [("description", scalar), ("required", scalar), ("default", scalar)]

def dispatchInput : Shape :=
  closedMap (inputKeys ++
    [("type", allowed (named ["boolean", "choice", "environment", "number", "string"])),
     ("options", strings.describe "Choices for a `choice` input")])

def callInput : Shape :=
  (closedMap (inputKeys ++ [("type", allowed (named ["boolean", "number", "string"]))])).require
    ["type"]

def schedule : Shape :=
  list ((closedMap [("cron", scalar.describe "POSIX cron syntax, UTC")]).require ["cron"])

def workflowDispatch : Shape :=
  closedMap [("inputs", (openMap dispatchInput).describe "Inputs of a manual run")]

def workflowCall : Shape :=
  closedMap
    [("inputs", openMap callInput),
     ("outputs",
      openMap ((closedMap [("description", scalar), ("value", scalar)]).require ["value"])),
     ("secrets", openMap (closedMap [("description", scalar), ("required", scalar)]))]

def workflowRun : Shape :=
  closedMap [("workflows", strings), ("types", strings), ("branches", strings),
    ("branches-ignore", strings)]

def event (name : String) : Shape :=
  if ["push", "pull_request", "pull_request_target"].contains name then
    closedMap (typeFilter ++ refFilters)
  else if name = "schedule" then schedule
  else if name = "workflow_dispatch" then workflowDispatch
  else if name = "workflow_call" then workflowCall
  else if name = "workflow_run" then workflowRun
  else closedMap typeFilter

def on : Shape :=
  (choice
    [allowed (described events),
     list (allowed (described events)),
     closedMap (events.map fun (name, text) => (name, (event name).describe text))]).describe
    "Events that trigger the workflow"

def permissions : Shape :=
  (choice
    [allowed (named ["read-all", "write-all"]),
     closedMap (permissionScopes.map fun scope =>
      (scope, allowed (named ["read", "write", "none"])))]).describe
    "Permissions granted to the GITHUB_TOKEN"

def defaults : Shape :=
  (closedMap [("run", closedMap [("shell", scalar), ("working-directory", scalar)])]).describe
    "Default settings for `run` steps"

def concurrency : Shape :=
  (choice
    [scalar,
     (closedMap [("group", scalar), ("cancel-in-progress", scalar)]).require ["group"]]).describe
    "Only one run in the same concurrency group runs at a time"

def container : Shape :=
  choice
    [scalar,
     closedMap
      [("image", scalar),
       ("credentials", closedMap [("username", scalar), ("password", scalar)]),
       ("env", env),
       ("ports", strings),
       ("volumes", strings),
       ("options", scalar)]]

def matrixValues : Shape := choice [scalar, list (choice [scalar, openMap scalar])]

def matrixEntries : Shape := list (openMap scalar)

def matrix : Shape :=
  (choice
    [scalar,
     (closedMap
      [("include", matrixEntries.describe "Extra matrix combinations"),
       ("exclude", matrixEntries.describe "Matrix combinations to leave out")]).others
      matrixValues]).describe
    "Build matrix; each key is a variable and each value a list of options"

def strategy : Shape :=
  closedMap [("matrix", matrix), ("fail-fast", scalar), ("max-parallel", scalar)]

def step : Shape :=
  closedMap
    [("id", scalar.describe "Identifier used to reference the step in expressions"),
     ("if", expression.describe "Run the step only when the condition holds"),
     ("name", scalar.describe "Name of the step"),
     ("uses", scalar.describe "Action to run"),
     ("run", scalar.describe "Command line programs to run"),
     ("shell", scalar),
     ("with", (openMap scalar).describe "Action inputs"),
     ("env", env),
     ("continue-on-error", scalar),
     ("timeout-minutes", scalar),
     ("working-directory", scalar)]

def needs : Shape :=
  (list (scalar.provide otherJobs)).describe
    "Jobs that must complete successfully before this job runs"

def runsOn : Shape :=
  (choice
    [list (allowed (described runnerLabels)),
     closedMap [("group", scalar), ("labels", strings)]]).describe
    "The type of machine to run the job on"

def environment : Shape :=
  (choice
    [scalar, (closedMap [("name", scalar), ("url", scalar)]).require ["name"]]).describe
    "Environment the job references"

def job : Shape :=
  closedMap
    [("name", scalar.describe "Name of the job displayed on GitHub"),
     ("needs", needs),
     ("runs-on", runsOn),
     ("permissions", permissions),
     ("environment", environment),
     ("concurrency", concurrency),
     ("outputs", (openMap scalar).describe "Outputs available to dependent jobs"),
     ("env", env),
     ("defaults", defaults),
     ("if", expression.describe "Run the job only when the condition holds"),
     ("steps", (list step).describe "Sequence of tasks"),
     ("timeout-minutes", scalar),
     ("strategy", strategy),
     ("continue-on-error", scalar),
     ("container", container),
     ("services", openMap container),
     ("uses", scalar.describe "Reusable workflow to call"),
     ("with", openMap scalar),
     ("secrets", choice [allowed (named ["inherit"]), openMap scalar])]

def workflow : Shape :=
  (closedMap
    [("name", scalar.describe "Name of the workflow"),
     ("run-name", scalar.describe "Name of workflow runs"),
     ("on", on),
     ("permissions", permissions),
     ("env", env),
     ("defaults", defaults),
     ("concurrency", concurrency),
     ("jobs", (openMap job).describe "Jobs of the workflow")]).require ["on", "jobs"]

end WorkflowLint.Schema
