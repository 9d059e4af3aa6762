import WorkflowLint.Proofs.Marker.Embed
import WorkflowLint.Proofs.Workflow.Steps

/-! Variables by scope. A place sees the variables of the parts of the workflow that it is in, but a
block of variables does not see itself, and the innermost block that has a name decides. -/
namespace WorkflowLint.Workflow
open Yaml (Value)
open WorkflowLint.Expr (Resolver)

def blockOf (part : Value) : Path → List Value
  | .key "env" :: _ => []
  | _ => (part.get? "env").toList

def jobBlocks (job : Value) (path : Path) : List Value :=
  blockOf job path ++
    match path with
    | .key "steps" :: .index i :: below =>
      match (job.get? "steps").bind (·.item? i) with
      | some step => blockOf step below
      | none => []
    | _ => []

/-- The blocks of variables that a place sees, outermost first: that of the workflow, of the job
that it is in, and of the step that it is in. -/
def visibleBlocks (workflow : Value) (path : Path) : List Value :=
  blockOf workflow path ++
    match path with
    | .key "jobs" :: .key name :: below =>
      match workflow.at? (jobPath name) with
      | some job => jobBlocks job below
      | none => []
    | _ => []

/-- A block gives a name a value. The keys of a mapping may differ in their tags alone, and then
the last one of them counts. -/
def Sets (block : Value) (name : String) (value : Value) : Prop :=
  ∃ before key after, block.entries? = some (before ++ (key, value) :: after) ∧
    key.text? = some name ∧ ∀ entry ∈ after, entry.1.text? ≠ some name

def Innermost (blocks : List Value) (name : String) (value : Value) : Prop :=
  ∃ outer block inner, blocks = outer ++ block :: inner ∧ Sets block name value ∧
    ∀ other ∈ inner, name ∉ textKeys (some other)

def IsExpression (value : Value) : Prop :=
  ∃ text, value.text? = some text ∧ Marker.opening <:+: text.toList

inductive Reads (value : Value) : Resolution → Prop
  | expression : IsExpression value → Reads value .indeterminate
  | json {json : Json} : ¬IsExpression value → value.toJson? = some json →
      Reads value (.known json)
  | noJson : ¬IsExpression value → value.toJson? = none → Reads value .indeterminate

/-! The value of a variable -/

theorem isExpression_iff {value : Value} :
    IsExpression value ↔ (value.text?.any fun s => hasMarkers s.toList) = true := by
  cases htext : value.text? with
  | none => simp [IsExpression, htext]
  | some text => simp [IsExpression, htext, Marker.hasMarkers_iff]

theorem reads_contextValue (value : Value) : Reads value ((contextValue value).resolve []) := by
  unfold contextValue
  split
  · next h => exact .expression (isExpression_iff.mpr h)
  · next h =>
    have hnot : ¬IsExpression value := mt isExpression_iff.mp h
    cases hjson : value.toJson? with
    | some json => exact .json hnot hjson
    | none => exact .noJson hnot hjson

/-! The variables of a block -/

def envField? (entry : Value × Value) : Option (String × ContextValue) :=
  entry.1.text?.map fun name => (name, contextValue entry.2)

theorem envFields_eq (block : Value) :
    envFields block = (block.entries?.getD []).filterMap envField? := rfl

theorem envField?_eq_some {entry : Value × Value} {field : String × ContextValue} :
    envField? entry = some field ↔
      entry.1.text? = some field.1 ∧ contextValue entry.2 = field.2 := by
  cases htext : entry.1.text? <;> simp [envField?, htext, Prod.ext_iff]

theorem mem_textKeys {block : Value} {name : String} :
    name ∈ textKeys (some block) ↔
      ∃ entries, block.entries? = some entries ∧ ∃ entry ∈ entries, entry.1.text? = some name := by
  cases hentries : block.entries? <;> simp [textKeys, hentries]

def HasKey (mapping : Value) (name : String) : Prop :=
  ∃ entries, mapping.entries? = some entries ∧ ∃ entry ∈ entries, entry.1.text? = some name

theorem mem_textKeys_iff {value : Option Value} {name : String} :
    name ∈ textKeys value ↔ ∃ mapping, value = some mapping ∧ HasKey mapping name := by
  cases value with
  | none => simp [textKeys]
  | some mapping => simp only [mem_textKeys, HasKey, Option.some.injEq, exists_eq_left']

theorem mem_textKeys_of_mem_envFields {block : Value} {field : String × ContextValue}
    (h : field ∈ envFields block) : field.1 ∈ textKeys (some block) := by
  rw [envFields_eq] at h
  obtain ⟨entry, hentry, hfield⟩ := List.mem_filterMap.mp h
  cases hentries : block.entries? with
  | none => simp [hentries] at hentry
  | some entries =>
    rw [hentries, Option.getD_some] at hentry
    exact mem_textKeys.mpr ⟨entries, hentries, entry, hentry, (envField?_eq_some.mp hfield).1⟩

theorem Sets.exists_envFields {block value : Value} {name : String} (h : Sets block name value) :
    ∃ before after, envFields block = before ++ (name, contextValue value) :: after ∧
      ∀ field ∈ after, field.1 ≠ name := by
  obtain ⟨before, key, after, hentries, hkey, hafter⟩ := h
  have hfield : envField? (key, value) = some (name, contextValue value) :=
    envField?_eq_some.mpr ⟨hkey, rfl⟩
  refine ⟨before.filterMap envField?, after.filterMap envField?, ?_, ?_⟩
  · rw [envFields_eq, hentries, Option.getD_some, List.filterMap_append,
      List.filterMap_cons_some hfield]
  · rintro other hother rfl
    obtain ⟨entry, hentry, hsome⟩ := List.mem_filterMap.mp hother
    exact hafter entry hentry (envField?_eq_some.mp hsome).1

theorem exists_last {α : Type} {P : α → Prop} {l : List α} (h : ∃ x ∈ l, P x) :
    ∃ before x after, l = before ++ x :: after ∧ P x ∧ ∀ y ∈ after, ¬P y := by
  induction l with
  | nil => simp at h
  | cons first rest ih =>
    by_cases hrest : ∃ x ∈ rest, P x
    · obtain ⟨before, x, after, rfl, hx, hafter⟩ := ih hrest
      exact ⟨first :: before, x, after, rfl, hx, hafter⟩
    · have hfirst : P first := by
        obtain ⟨x, hmem, hx⟩ := h
        obtain rfl | hmem := List.mem_cons.mp hmem
        · exact hx
        · exact absurd ⟨x, hmem, hx⟩ hrest
      exact ⟨[], first, rest, rfl, hfirst, fun y hy hp => hrest ⟨y, hy, hp⟩⟩

theorem exists_sets {block : Value} {name : String} (h : name ∈ textKeys (some block)) :
    ∃ value, Sets block name value := by
  obtain ⟨entries, hentries, hname⟩ := mem_textKeys.mp h
  obtain ⟨before, entry, after, rfl, hentry, hafter⟩ := exists_last hname
  exact ⟨entry.2, before, entry.1, after, hentries, hentry, hafter⟩

theorem exists_innermost {blocks : List Value} {name : String}
    (h : ∃ block ∈ blocks, name ∈ textKeys (some block)) :
    ∃ value, Innermost blocks name value := by
  obtain ⟨outer, block, inner, rfl, hblock, hinner⟩ := exists_last h
  obtain ⟨value, hsets⟩ := exists_sets hblock
  exact ⟨value, outer, block, inner, rfl, hsets, hinner⟩

theorem resolve_innermost {blocks : List Value} {name : String} {value : Value}
    (h : Innermost blocks name value) (rest : Path) :
    (ContextValue.closed (blocks.flatMap envFields)).resolve (.key name :: rest) =
      (contextValue value).resolve rest := by
  obtain ⟨outer, block, inner, rfl, hsets, hinner⟩ := h
  obtain ⟨before, after, hfields, hafter⟩ := hsets.exists_envFields
  have hsplit : (outer ++ block :: inner).flatMap envFields =
      (outer.flatMap envFields ++ before) ++
        (name, contextValue value) :: (after ++ inner.flatMap envFields) := by
    simp [hfields]
  rw [hsplit]
  refine ContextValue.resolve_closed_last (fun field hfield => ?_) _ rest
  obtain hfield | hfield := List.mem_append.mp hfield
  · exact hafter field hfield
  · obtain ⟨other, hother, hfield⟩ := List.mem_flatMap.mp hfield
    rintro rfl
    exact hinner other hother (mem_textKeys_of_mem_envFields hfield)

theorem resolve_no_block {blocks : List Value} {name : String}
    (h : ∀ block ∈ blocks, ∀ key ∈ textKeys (some block), Text.sameName key name = false)
    (rest : Path) :
    (ContextValue.closed (blocks.flatMap envFields)).resolve (.key name :: rest) = .unknown := by
  refine ContextValue.resolve_closed_unknown (fun field hfield => ?_) rest
  obtain ⟨block, hblock, hfield⟩ := List.mem_flatMap.mp hfield
  exact h block hblock field.1 (mem_textKeys_of_mem_envFields hfield)

/-! The blocks around a place -/

theorem blockOf_eq (part : Value) (path : Path) :
    blockOf part path = (if path.key? 0 = some "env" then none else part.get? "env").toList := by
  unfold blockOf
  split
  · rfl
  · next hnot =>
    have hkey : path.key? 0 ≠ some "env" := by
      match path with
      | [] => simp [Path.key?]
      | .index _ :: _ => simp [Path.key?]
      | .key name :: rest =>
        intro heq
        obtain rfl : name = "env" := by simpa [Path.key?] using heq
        exact hnot rest rfl
    rw [if_neg hkey]

section
variable {workflow job : Value} {path : Path}

theorem jobBlocks_step (i : Nat) (below : Path) :
    jobBlocks job (.key "steps" :: .index i :: below) = (job.get? "env").toList ++
      ((job.get? "steps").bind (·.item? i)).toList.flatMap fun step => blockOf step below := by
  rw [jobBlocks, blockOf_eq]
  cases (job.get? "steps").bind (·.item? i) <;> simp [Path.key?]

theorem jobBlocks_no_step (h : ∀ i below, path ≠ .key "steps" :: .index i :: below) :
    jobBlocks job path = blockOf job path := by
  unfold jobBlocks
  split
  · next i below => exact absurd rfl (h i below)
  · exact List.append_nil _

theorem scope_no_job (h : ∀ name below, path = jobPath name ++ below →
    workflow.at? (jobPath name) = none) :
    Scope.ofPath workflow path = ⟨workflow, path, none, none⟩ := by
  have hjob : (if path.key? 0 = some "jobs" && (path.key? 1).isSome then
      workflow.at? (path.take 2) else none) = none := by
    match path with
    | [] | [_] | .index _ :: _ :: _ | .key _ :: .index _ :: _ => simp [Path.key?]
    | .key first :: .key name :: below =>
      by_cases hfirst : first = "jobs"
      · subst hfirst
        have hnone := h name below rfl
        simpa [Path.key?, jobPath] using hnone
      · simp [Path.key?, hfirst]
  simp only [Scope.ofPath, hjob]
  rfl

theorem visibleBlocks_in_job {name : String} (h : workflow.at? (jobPath name) = some job)
    (below : Path) : visibleBlocks workflow (jobPath name ++ below) =
      (workflow.get? "env").toList ++ jobBlocks job below := by
  have houter : blockOf workflow (jobPath name ++ below) = (workflow.get? "env").toList := by
    rw [blockOf_eq]
    simp [Path.key?, jobPath]
  change blockOf workflow (jobPath name ++ below) ++ (match workflow.at? (jobPath name) with
    | some job => jobBlocks job below
    | none => []) = _
  rw [houter, h]

theorem visibleBlocks_no_job (h : ∀ name below, path = jobPath name ++ below →
    workflow.at? (jobPath name) = none) : visibleBlocks workflow path = blockOf workflow path := by
  unfold visibleBlocks
  split
  · next name below =>
    rw [h name below rfl]
    exact List.append_nil _
  · exact List.append_nil _

theorem envBlocks_in_job {name : String} (h : workflow.at? (jobPath name) = some job)
    (below : Path) : envBlocks (Scope.ofPath workflow (jobPath name ++ below)) =
      (workflow.get? "env").toList ++ jobBlocks job below := by
  have h0 : Path.key? (jobPath name ++ below) 0 = some "jobs" := rfl
  have h2 : Path.key? (jobPath name ++ below) 2 = below.key? 0 := rfl
  have h4 : Path.key? (jobPath name ++ below) 4 = below.key? 2 := rfl
  rw [scope_in_job h]
  simp only [envBlocks, h0, h2, h4, Option.bind_some, List.append_assoc]
  by_cases hstep : ∃ i rest, below = .key "steps" :: .index i :: rest
  · obtain ⟨i, rest, rfl⟩ := hstep
    have hnumber : stepOf? (.key "steps" :: .index i :: rest) = some i := stepOf?_step i rest
    have hown : Path.key? (.key "steps" :: .index i :: rest) 0 = some "steps" := rfl
    have hrest : Path.key? (.key "steps" :: .index i :: rest) 2 = Path.key? rest 0 := rfl
    rw [jobBlocks_step, hnumber, hown, hrest]
    simp only [Option.bind_some, blockOf_eq]
    cases job.get? "steps" with
    | none => simp
    | some steps => cases hitem : steps.item? i <;> simp [hitem]
  · have hnone := fun i rest heq => hstep ⟨i, rest, heq⟩
    rw [jobBlocks_no_step hnone, stepOf?_eq_none hnone, blockOf_eq]
    simp

theorem envBlocks_eq (workflow : Value) (path : Path) :
    envBlocks (Scope.ofPath workflow path) = visibleBlocks workflow path := by
  by_cases hjob : ∃ name below job, path = jobPath name ++ below ∧
      workflow.at? (jobPath name) = some job
  · obtain ⟨name, below, job, rfl, hjob⟩ := hjob
    rw [envBlocks_in_job hjob, visibleBlocks_in_job hjob]
  · have hnone (name : String) (below : Path) (hpath : path = jobPath name ++ below) :
        workflow.at? (jobPath name) = none := by
      refine Option.eq_none_iff_forall_ne_some.mpr fun job hat => ?_
      exact hjob ⟨name, below, job, hpath, hat⟩
    rw [scope_no_job hnone, visibleBlocks_no_job hnone, blockOf_eq]
    simp [envBlocks]

end

/-- A name means the variable of the innermost block that has it, among those of the workflow, the
job and the step that a place is in, less the block that it stands in itself. If no block has it,
in letters of either case, there is no such variable. -/
theorem env_by_scope (repository : Repository) (workflow : Value) (path : Path) (name : String) :
    (∀ value, Innermost (visibleBlocks workflow path) name value →
      Reads value (Resolver.ofProvider (contexts repository workflow path) "env" [.key name])) ∧
    ((∃ block ∈ visibleBlocks workflow path, name ∈ textKeys (some block)) →
      ∃ value, Innermost (visibleBlocks workflow path) name value) ∧
    ((∀ block ∈ visibleBlocks workflow path, ∀ key ∈ textKeys (some block),
        Text.sameName key name = false) →
      Resolver.ofProvider (contexts repository workflow path) "env" [.key name] = .unknown) := by
  have henv : Resolver.ofProvider (contexts repository workflow path) "env" [.key name] =
      (ContextValue.closed ((visibleBlocks workflow path).flatMap envFields)).resolve
        [.key name] := by
    rw [← envBlocks_eq]
    rfl
  rw [henv]
  refine ⟨fun value hvalue => ?_, exists_innermost, fun hnone => resolve_no_block hnone []⟩
  rw [resolve_innermost hvalue]
  exact reads_contextValue value

def expressionText : Value := .str "$\x7b\x7b vars.a \x7d\x7d"

def shadowed : Value :=
  .map [(.str "env", .map [(.str "A", .str "outer")]),
    (.str "jobs", .map [(.str "ci", .map [
      (.str "env", .map [(.str "A", expressionText)]),
      (.str "steps", .seq [.map [(.str "env", .map [(.str "A", .num (.int 7))])]])])])]

def anyRepository : Repository := ⟨none, none, none, none⟩

theorem env_by_scope_shadowed :
    Reads (.num (.int 7)) (Resolver.ofProvider (contexts anyRepository shadowed
      (stepPath "ci" 0 ++ [.key "run"])) "env" [.key "A"]) ∧
    Reads expressionText (Resolver.ofProvider (contexts anyRepository shadowed
      (stepPath "ci" 0 ++ [.key "env", .key "B"])) "env" [.key "A"]) ∧
    Resolver.ofProvider (contexts anyRepository shadowed [.key "env", .key "A"]) "env"
      [.key "A"] = .unknown := by
  have hcommand : Innermost (visibleBlocks shadowed (stepPath "ci" 0 ++ [.key "run"])) "A"
      (.num (.int 7)) :=
    ⟨[.map [(.str "A", .str "outer")], .map [(.str "A", expressionText)]], _, [], rfl,
      ⟨[], .str "A", [], rfl, rfl, by simp⟩, by simp⟩
  have hblock : Innermost (visibleBlocks shadowed (stepPath "ci" 0 ++ [.key "env", .key "B"])) "A"
      expressionText :=
    ⟨[.map [(.str "A", .str "outer")]], _, [], rfl, ⟨[], .str "A", [], rfl, rfl, by simp⟩, by simp⟩
  have hnone : visibleBlocks shadowed [.key "env", .key "A"] = [] := rfl
  refine ⟨(env_by_scope _ _ _ "A").1 _ hcommand, (env_by_scope _ _ _ "A").1 _ hblock, ?_⟩
  exact (env_by_scope _ _ _ "A").2.2 (by simp [hnone])

end WorkflowLint.Workflow
