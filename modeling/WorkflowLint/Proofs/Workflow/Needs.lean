import WorkflowLint.Proofs.Tree.Value
import WorkflowLint.Proofs.Workflow.Variables
import WorkflowLint.Schema.Needs

/-! The jobs that a job needs. What an expression takes from one of them is checked against the
outputs that the job declares, and an id that no job has is not among those allowed. The two look a
job up in different ways: a job whose id bears a tag is allowed, and its outputs are not checked. -/
namespace WorkflowLint.Workflow
open Yaml (Value)
open WorkflowLint.Expr (Resolver)
open WorkflowLint.Schema (otherJobs jobValue?)

def Needs (job : Value) (id : String) : Prop :=
  job.get? "needs" = some (.str id) ∨
    ∃ items, job.get? "needs" = some (.seq items) ∧ ∃ item ∈ items, item.text? = some id

def outputPath (id name : String) : Path := [.key id, .key "outputs", .key name]

def Outputs (job : Value) (name : String) : Prop :=
  ∃ outputs, job.get? "outputs" = some outputs ∧
    ∃ key, HasKey outputs key ∧ Text.sameName key name = true

/-- What an expression in a job sees of the jobs that this one needs. -/
structure SeesNeeds (provider : ContextProvider) (jobs job : Value) : Prop where
  available : (provider "needs").isSome = true
  hidden : ∀ id rest, (∀ other, Needs job other → Text.sameName other id = false) →
    Resolver.ofProvider provider "needs" (.key id :: rest) = .unknown
  declared : ∀ id, Needs job id → ∀ needed, jobs.get? id = some needed →
    ∀ name, Outputs needed name →
      Resolver.ofProvider provider "needs" (outputPath id name) = .indeterminate
  undeclared : ∀ id, Needs job id → ∀ needed, jobs.get? id = some needed →
    ∀ name, ¬Outputs needed name →
      Resolver.ofProvider provider "needs" (outputPath id name) = .unknown
  missing : ∀ id, Needs job id → jobs.get? id = none → ∀ name,
    Resolver.ofProvider provider "needs" (outputPath id name) = .indeterminate

def Unchecked (provider : ContextProvider) (id : String) : Prop :=
  ∀ name, Resolver.ofProvider provider "needs" (outputPath id name) = .indeterminate

/-- The id is that of a job, but only with a tag. -/
def OnlyTagged (jobs : List (Value × Value)) (id : String) : Prop :=
  (∃ entry ∈ jobs, entry.1.text? = some id) ∧ ∀ entry ∈ jobs, entry.1 ≠ .str id

/-! What the context holds -/

theorem mem_neededIds {job : Value} {id : String} : id ∈ neededIds job ↔ Needs job id := by
  unfold neededIds Needs
  split
  · next other hother => simp [hother, eq_comm]
  · next items hitems => simp [hitems]
  · next hstr hseq =>
    refine iff_of_false List.not_mem_nil ?_
    rintro (h | ⟨items, h, -⟩)
    · exact hstr id h
    · exact hseq items h

def neededOutputs : Option Value → ContextValue
  | some job => .names (textKeys (job.get? "outputs"))
  | none => .anyFields

def neededValue (job : Option Value) : ContextValue :=
  .closed [("outputs", neededOutputs job), ("result", .dynamic)]

theorem needs_eq (workflow job : Value) :
    needs workflow job = .closed ((neededIds job).map fun id =>
      (id, neededValue ((workflow.get? "jobs").bind (·.get? id)))) := rfl

theorem resolve_needs_output {workflow job : Value} {id : String} (h : id ∈ neededIds job)
    (name : String) : (needs workflow job).resolve (outputPath id name) =
      (neededOutputs ((workflow.get? "jobs").bind (·.get? id))).resolve [.key name] := by
  rw [needs_eq, outputPath, ContextValue.resolve_closed_map h]
  exact @ContextValue.resolve_closed_last "outputs" [] [("result", .dynamic)] (by simp) _ _

theorem outputs_iff {job : Value} {name : String} :
    Outputs job name ↔
      (textKeys (job.get? "outputs")).any (Text.sameName · name) = true := by
  simp only [List.any_eq_true, mem_textKeys_iff, Outputs]
  constructor
  · rintro ⟨outputs, houtputs, key, hkey, hname⟩
    exact ⟨key, ⟨outputs, houtputs, hkey⟩, hname⟩
  · rintro ⟨key, ⟨outputs, houtputs, hkey⟩, hname⟩
    exact ⟨outputs, houtputs, key, hkey, hname⟩

section
variable {workflow job : Value} {jobs : List (Value × Value)} {current : String}

theorem seesNeeds_of_eq {provider : ContextProvider}
    (hjobs : workflow.get? "jobs" = some (.map jobs))
    (h : provider "needs" = some (needs workflow job)) :
    SeesNeeds provider (.map jobs) job := by
  have houtput {id : String} (hid : Needs job id) (name : String) :
      Resolver.ofProvider provider "needs" (outputPath id name) =
        (neededOutputs ((Value.map jobs).get? id)).resolve [.key name] := by
    rw [Resolver.ofProvider_of_eq h, resolve_needs_output (mem_neededIds.mpr hid), hjobs,
      Option.bind_some]
  constructor
  · rw [h]
    rfl
  · intro id rest hid
    rw [Resolver.ofProvider_of_eq h, needs_eq]
    refine ContextValue.resolve_closed_unknown (fun field hfield => ?_) rest
    obtain ⟨other, hother, rfl⟩ := List.mem_map.mp hfield
    exact hid other (mem_neededIds.mp hother)
  · intro id hid found hfound name hname
    rw [houtput hid, hfound, neededOutputs, ContextValue.resolve_names,
      if_pos (outputs_iff.mp hname)]
  · intro id hid found hfound name hname
    rw [houtput hid, hfound, neededOutputs, ContextValue.resolve_names,
      if_neg (mt outputs_iff.mpr hname)]
  · intro id hid hnone name
    rw [houtput hid, hnone, neededOutputs]
    exact ContextValue.resolve_anyFields _

theorem SeesNeeds.unchecked_iff {provider : ContextProvider}
    (h : SeesNeeds provider (.map jobs) job) {id : String} (hid : Needs job id) :
    Unchecked provider id ↔ (Value.map jobs).get? id = none := by
  constructor
  · intro hunchecked
    cases hfound : (Value.map jobs).get? id with
    | none => rfl
    | some found =>
      obtain ⟨name, hname⟩ := exists_other_name (textKeys (found.get? "outputs"))
      have hnot : ¬Outputs found name := by
        rw [outputs_iff, List.any_eq_true]
        rintro ⟨key, hkey, hsame⟩
        rw [hname key hkey] at hsame
        cases hsame
      have hunknown := h.undeclared id hid found hfound name hnot
      rw [hunchecked name] at hunknown
      cases hunknown
  · exact fun hnone name => h.missing id hid hnone name

/-! The ids that are allowed -/

theorem get?_eq_none_iff {id : String} :
    (Value.map jobs).get? id = none ↔ ∀ entry ∈ jobs, entry.1 ≠ .str id := by
  rw [SyntaxTree.get?_map, SyntaxTree.textValue?, Option.map_eq_none_iff, List.find?_eq_none]
  simp only [SyntaxTree.isText_iff, ne_eq]

theorem jobValue?_value (current : String) (entry : Value × Value) :
    (jobValue? (some current) entry).map (·.value) =
      entry.1.text?.filter (· ≠ current) := by
  cases htext : entry.1.text? with
  | none => simp [jobValue?, htext]
  | some id => by_cases hid : id = current <;> simp [jobValue?, htext, hid, Option.filter]

theorem otherJobs_eq (hjobs : workflow.get? "jobs" = some (.map jobs)) (current : String)
    (below : Path) :
    ∃ values, otherJobs workflow (jobPath current ++ below) = .ok values ∧
      values.map (·.value) = (jobs.filterMap (·.1.text?)).filter (· ≠ current) := by
  have hpath : Path.key? (jobPath current ++ below) 1 = some current := rfl
  refine ⟨jobs.filterMap (jobValue? (some current)), by rw [otherJobs, hjobs, hpath], ?_⟩
  rw [List.map_filterMap, List.filter_filterMap]
  simp only [jobValue?_value]

/-- In every place of a job, what is taken from the jobs that it needs is checked against their
outputs, and all jobs but itself are allowed as needed ones. Of those that are needed, the one
whose outputs are not checked and which is allowed all the same is a job whose id bears a tag. -/
theorem needs_checked_or_rejected (hjobs : workflow.get? "jobs" = some (.map jobs))
    (hjob : (Value.map jobs).get? current = some job) (repository : Repository)
    (place listed : Path) :
    SeesNeeds (contexts repository workflow (jobPath current ++ place)) (.map jobs) job ∧
    ∃ values, otherJobs workflow (jobPath current ++ .key "needs" :: listed) = .ok values ∧
      values.map (·.value) = (jobs.filterMap (·.1.text?)).filter (· ≠ current) ∧
      ∀ id, Needs job id →
        ((Unchecked (contexts repository workflow (jobPath current ++ place)) id ∧
          id ∈ values.map (·.value)) ↔ OnlyTagged jobs id) := by
  have hat : workflow.at? (jobPath current) = some job := by
    simp [jobPath, Value.at?, hjobs, hjob]
  have hneeds : contexts repository workflow (jobPath current ++ place) "needs" =
      some (needs workflow job) := by
    simp only [contexts, scope_in_job hat, Option.map_some]
  have hsees := seesNeeds_of_eq hjobs hneeds
  obtain ⟨values, hvalues, hnames⟩ := otherJobs_eq hjobs current (.key "needs" :: listed)
  refine ⟨hsees, values, hvalues, hnames, fun id hid => ?_⟩
  rw [hsees.unchecked_iff hid, hnames, List.mem_filter, List.mem_filterMap, get?_eq_none_iff,
    OnlyTagged]
  constructor
  · rintro ⟨hplain, hmem, -⟩
    exact ⟨hmem, hplain⟩
  · rintro ⟨hmem, hplain⟩
    refine ⟨hplain, hmem, ?_⟩
    -- the job itself is found, so it bears no tag
    have hother : id ≠ current := by
      rintro rfl
      rw [get?_eq_none_iff.mpr hplain] at hjob
      cases hjob
    simpa using hother

end

def testJob : Value := .map [(.str "needs", .seq [.str "build", .str "gone"])]

def withTest (others : List (Value × Value)) : List (Value × Value) :=
  others ++ [(.str "test", testJob)]

def buildJob : Value := .map [(.str "outputs", .map [(.str "Artifact", .str "a.zip")])]

def ofJobs (jobs : List (Value × Value)) : Value := .map [(.str "jobs", .map jobs)]

def buildAndLint : List (Value × Value) := [(.str "build", buildJob), (.str "lint", .map [])]

theorem needs_checked_or_rejected_build :
    (ofJobs (withTest buildAndLint)).get? "jobs" = some (.map (withTest buildAndLint)) ∧
    (Value.map (withTest buildAndLint)).get? "test" = some testJob ∧
    Resolver.ofProvider (contexts anyRepository (ofJobs (withTest buildAndLint))
      (jobPath "test" ++ [.key "name"])) "needs" (outputPath "build" "artifact") =
        .indeterminate ∧
    Resolver.ofProvider (contexts anyRepository (ofJobs (withTest buildAndLint))
      (jobPath "test" ++ [.key "name"])) "needs" (outputPath "build" "log") = .unknown ∧
    Resolver.ofProvider (contexts anyRepository (ofJobs (withTest buildAndLint))
      (jobPath "test" ++ [.key "name"])) "needs" (outputPath "gone" "log") = .indeterminate ∧
    ∃ values, otherJobs (ofJobs (withTest buildAndLint)) (jobPath "test" ++ [.key "needs"]) =
        .ok values ∧ values.map (·.value) = ["build", "lint"] := by
  have hjobs : (ofJobs (withTest buildAndLint)).get? "jobs" =
      some (.map (withTest buildAndLint)) := rfl
  have hjob : (Value.map (withTest buildAndLint)).get? "test" = some testJob := rfl
  have hbuild : (Value.map (withTest buildAndLint)).get? "build" = some buildJob := rfl
  obtain ⟨hsees, values, hvalues, hnames, -⟩ :=
    needs_checked_or_rejected hjobs hjob anyRepository [.key "name"] []
  have hneeds : Needs testJob "build" := mem_neededIds.mp (by decide)
  have hgone : Needs testJob "gone" := mem_neededIds.mp (by decide)
  have hartifact : Outputs buildJob "artifact" := outputs_iff.mpr (by decide)
  have hlog : ¬Outputs buildJob "log" := mt outputs_iff.mp (by decide)
  exact ⟨hjobs, hjob, hsees.declared _ hneeds _ hbuild _ hartifact,
    hsees.undeclared _ hneeds _ hbuild _ hlog, hsees.missing _ hgone rfl _, values, hvalues,
    hnames⟩

def taggedBuild : List (Value × Value) := [(.tagged "!x" (.str "build"), buildJob)]

theorem tagged_job_unchecked :
    Needs testJob "build" ∧ OnlyTagged (withTest taggedBuild) "build" ∧
    ¬Outputs buildJob "log" ∧
    Resolver.ofProvider (contexts anyRepository (ofJobs (withTest taggedBuild))
      (jobPath "test" ++ [.key "name"])) "needs" (outputPath "build" "log") = .indeterminate ∧
    otherJobs (ofJobs (withTest taggedBuild)) (jobPath "test" ++ [.key "needs"]) =
      .ok [⟨"build", none⟩] :=
  ⟨mem_neededIds.mp (by decide), ⟨by decide, by simp [withTest, taggedBuild]⟩,
    mt outputs_iff.mp (by decide), rfl, rfl⟩

end WorkflowLint.Workflow
