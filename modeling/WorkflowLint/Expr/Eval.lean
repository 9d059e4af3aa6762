import WorkflowLint.Expr.Context
import WorkflowLint.Expr.Error
import WorkflowLint.Expr.Function

/-! Evaluation. It gives a value, the knowledge that there will be one, or an error. -/
namespace WorkflowLint.Expr

structure Env where
  resolve : Resolver
  functions : Functions

abbrev Outcome := Except EvalError Evaluation

def Literal.toJson : Literal → Json
  | .null => .null
  | .bool b => .bool b
  | .number x => x.toJson
  | .string s => .str s

def compareBy (op : BinaryOp) (a b : Json) : Bool :=
  match op with
  | .eq => a.looseEq b
  | .ne => !a.looseEq b
  | .lt => a.looseCompare? b == some .lt
  | .le => a.looseCompare? b == some .lt || a.looseCompare? b == some .eq
  | .gt => a.looseCompare? b == some .gt
  | .ge => a.looseCompare? b == some .gt || a.looseCompare? b == some .eq
  | .and | .or => false

/-- An operator on two operands, both of which have been evaluated: an error on either side is
an error even if the other side decides the result. -/
def applyBinary (op : BinaryOp) (left right : Evaluation) : Evaluation :=
  match op with
  | .and => match left with
    | .known l => if l.isTruthy then right else .known l
    | .indeterminate => .indeterminate
  | .or => match left with
    | .known l => if l.isTruthy then .known l else right
    | .indeterminate => .indeterminate
  | op => match left, right with
    | .known l, .known r => .known (.bool (compareBy op l r))
    | _, _ => .indeterminate

def negate : Evaluation → Evaluation
  | .known v => .known (.bool (!v.isTruthy))
  | .indeterminate => .indeterminate

def allKnown? : List Evaluation → Option (List Json)
  | [] => some []
  | .known v :: rest => (allKnown? rest).map (v :: ·)
  | .indeterminate :: _ => none

/-- A call whose arguments have been evaluated. The function and the number of arguments have to
be right even if an argument is not known. -/
def callFunction (env : Env) (span : Span) (name : String) (args : List Evaluation) : Outcome :=
  match env.functions.get? name with
  | none => .error ⟨.invalid, span⟩
  | some f =>
    if f.accepts args.length then
      match allKnown? args with
      | none => .ok .indeterminate
      | some values =>
        match f.call values with
        | .ok result => .ok result
        | .error e => .error ⟨e.failure, span⟩
    else .error ⟨.invalid, span⟩

inductive Step where
  | to (s : Segment)
  | indeterminate
  | nowhere
deriving DecidableEq, Repr

/-- Whole numbers past a word count as the largest word. -/
def wordIndex (x : Binary64) : Nat := min x.whole.toNat (twoTo 64 - 1)

def Step.ofIndex : Evaluation → Step
  | .indeterminate => .indeterminate
  | .known (.str name) => .to (.key name)
  | .known (.bool b) => .to (.index (if b then 1 else 0))
  | .known (.num n) =>
    let x := n.toBinary64
    let notNegative := match x.compare? .zero with
      | some .gt | some .eq => true
      | _ => false
    if notNegative && x.isWhole then .to (.index (wordIndex x)) else .nowhere
  | .known _ => .nowhere

def pathOf? : List Step → Option Path
  | [] => some []
  | .to s :: rest => (pathOf? rest).map (s :: ·)
  | _ :: _ => none

inductive Root where
  | context (name : String)
  | value (outcome : Outcome)

structure Access where
  root : Root
  steps : Except EvalError (List Step)

namespace Access

def ofContext (name : String) : Access := ⟨.context name, .ok []⟩

def ofValue (outcome : Outcome) : Access := ⟨.value outcome, .ok []⟩

def push (a : Access) (step : Except EvalError Step) : Access where
  root := a.root
  steps := match a.steps with
    | .error e => .error e
    | .ok steps => match step with
      | .error e => .error e
      | .ok s => .ok (steps ++ [s])

/-- What steps that cannot all be taken come to. An unknown one counts before one that leads
nowhere. -/
def blocked? (steps : List Step) : Option Evaluation :=
  if .indeterminate ∈ steps then some .indeterminate
  else if .nowhere ∈ steps then some (.known .null)
  else none

def lookUp (env : Env) (span : Span) (name : String) (path : Path) : Outcome :=
  match env.resolve name path with
  | .known v => .ok (.known v)
  | .indeterminate => .ok .indeterminate
  | .unknown => .error ⟨.unknownAccess (name ++ Path.steps path), span⟩

/-- The value at the end of the steps. A failed step counts before a failed root. -/
def finish (env : Env) (span : Span) (a : Access) : Outcome :=
  match a.steps with
  | .error e => .error e
  | .ok steps =>
    let path := (pathOf? steps).getD []
    match a.root with
    | .context name =>
      match blocked? steps with
      | some e => .ok e
      | none => lookUp env span name path
    | .value (.error e) => .error e
    | .value (.ok .indeterminate) => .ok .indeterminate
    | .value (.ok (.known v)) =>
      match blocked? steps with
      | some e => .ok e
      | none => .ok (.known (v.navigate path))

end Access

mutual

def access (env : Env) : Expr → Access
  | .literal _ v => .ofValue (.ok (.known v.toJson))
  | .context _ name => .ofContext name
  | .property _ target name => (access env target).push (.ok (.to (.key name)))
  | .index _ target i =>
    (access env target).push (((access env i).finish env i.span).map Step.ofIndex)
  | .call span name args => .ofValue (match evalAll env args with
    | .error e => .error e
    | .ok values => callFunction env span name values)
  | .apply span _ args => .ofValue (match evalAll env args with
    | .error e => .error e
    | .ok _ => .error ⟨.invalid, span⟩)
  | .binary _ op left right =>
    .ofValue (match (access env left).finish env left.span with
      | .error e => .error e
      | .ok l => match (access env right).finish env right.span with
        | .error e => .error e
        | .ok r => .ok (applyBinary op l r))
  | .not _ operand => .ofValue (((access env operand).finish env operand.span).map negate)

def evalAll (env : Env) : List Expr → Except EvalError (List Evaluation)
  | [] => .ok []
  | e :: es => match (access env e).finish env e.span with
    | .error err => .error err
    | .ok v => (evalAll env es).map (v :: ·)

end

def eval (env : Env) (e : Expr) : Outcome := (access env e).finish env e.span

theorem access_index (env : Env) (span : Span) (target i : Expr) :
    access env (.index span target i) =
      (access env target).push ((eval env i).map Step.ofIndex) := by
  rw [access]
  rfl

theorem access_call (env : Env) (span : Span) (name : String) (args : List Expr) :
    access env (.call span name args) =
      .ofValue ((evalAll env args).bind (callFunction env span name)) := by
  rw [access]
  cases evalAll env args <;> rfl

theorem access_apply (env : Env) (span : Span) (callee : Expr) (args : List Expr) :
    access env (.apply span callee args) =
      .ofValue ((evalAll env args).bind fun _ => .error ⟨.invalid, span⟩) := by
  rw [access]
  cases evalAll env args <;> rfl

theorem access_binary (env : Env) (span : Span) (op : BinaryOp) (left right : Expr) :
    access env (.binary span op left right) =
      .ofValue ((eval env left).bind fun l => (eval env right).map (applyBinary op l)) := by
  rw [access, ← eval, ← eval]
  cases eval env left with
  | error e => rfl
  | ok l => cases eval env right <;> rfl

theorem access_not (env : Env) (span : Span) (operand : Expr) :
    access env (.not span operand) = .ofValue ((eval env operand).map negate) := by
  rw [access]
  rfl

theorem evalAll_cons (env : Env) (e : Expr) (es : List Expr) :
    evalAll env (e :: es) = (eval env e).bind fun v => (evalAll env es).map (v :: ·) := by
  rw [evalAll, ← eval]
  cases eval env e <;> rfl

end WorkflowLint.Expr
