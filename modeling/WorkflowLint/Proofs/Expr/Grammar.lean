import WorkflowLint.Expr.Parser

/-! The grammar of expressions, over tokens whose places do not matter, and the trees that it
derives, which have no places either. -/
namespace WorkflowLint.Expr

inductive Tree where
  | literal (value : Literal)
  | context (name : String)
  | property (target : Tree) (name : String)
  | index (target : Tree) (index : Tree)
  | call (name : String) (args : List Tree)
  | apply (callee : Tree) (args : List Tree)
  | binary (op : BinaryOp) (left : Tree) (right : Tree)
  | not (operand : Tree)

mutual

def tree : Expr → Tree
  | .literal _ v => .literal v
  | .context _ name => .context name
  | .property _ target name => .property (tree target) name
  | .index _ target i => .index (tree target) (tree i)
  | .call _ name args => .call name (trees args)
  | .apply _ callee args => .apply (tree callee) (trees args)
  | .binary _ op left right => .binary op (tree left) (tree right)
  | .not _ operand => .not (tree operand)

def trees : List Expr → List Tree
  | [] => []
  | e :: es => tree e :: trees es

end

theorem trees_append (es fs : List Expr) : trees (es ++ fs) = trees es ++ trees fs := by
  induction es with
  | nil => rfl
  | cons e es ih => simp [trees, ih]

@[simp] theorem tree_withSpan (s : Span) (e : Expr) : tree (e.withSpan s) = tree e := by
  cases e <;> rfl

@[simp] theorem tree_joined (op : BinaryOp) (left right : Expr) :
    tree (joined op left right) = .binary op (tree left) (tree right) := rfl

namespace Grammar

inductive Relation : Token → BinaryOp → Prop
  | eq : Relation .eq .eq
  | ne : Relation .ne .ne
  | lt : Relation .lt .lt
  | le : Relation .le .le
  | gt : Relation .gt .gt
  | ge : Relation .ge .ge

inductive Name : Token → String → Prop
  | ident (name : String) : Name (.ident name) name
  | true : Name .true "true"
  | false : Name .false "false"
  | null : Name .null "null"

inductive Value : Token → Literal → Prop
  | number (x : Binary64) : Value (.number x) (.number x)
  | string (s : String) : Value (.string s) (.string s)
  | true : Value .true (.bool Bool.true)
  | false : Value .false (.bool Bool.false)
  | null : Value .null .null

/-- The tokens of something that may be called without being named: anything but one name. -/
def Callable (ts : List Lexeme) : Prop := ∀ name s, ts ≠ [⟨.ident name, s⟩]

mutual

inductive Disjunction : List Lexeme → Tree → Prop
  | single {ts e} : Conjunction ts e → Disjunction ts e
  | or {ts us l r s} : Disjunction ts l → Conjunction us r →
      Disjunction (ts ++ ⟨.or, s⟩ :: us) (.binary .or l r)

inductive Conjunction : List Lexeme → Tree → Prop
  | single {ts e} : Comparison ts e → Conjunction ts e
  | and {ts us l r s} : Conjunction ts l → Comparison us r →
      Conjunction (ts ++ ⟨.and, s⟩ :: us) (.binary .and l r)

inductive Comparison : List Lexeme → Tree → Prop
  | single {ts e} : Unary ts e → Comparison ts e
  | relation {ts us l r t op} : Comparison ts l → Relation t.token op → Unary us r →
      Comparison (ts ++ t :: us) (.binary op l r)

inductive Unary : List Lexeme → Tree → Prop
  | not {ts e s} : Unary ts e → Unary (⟨.not, s⟩ :: ts) (.not e)
  | chain {ts e} : Postfix ts e → Unary ts e

inductive Postfix : List Lexeme → Tree → Prop
  | primary {ts e} : Primary ts e → Postfix ts e
  | property {ts e s t name} : Postfix ts e → Name t.token name →
      Postfix (ts ++ [⟨.dot, s⟩, t]) (.property e name)
  | index {ts us e i s s'} : Postfix ts e → Disjunction us i →
      Postfix (ts ++ ⟨.openBracket, s⟩ :: us ++ [⟨.closeBracket, s'⟩]) (.index e i)
  | apply {ts us e es s s'} : Postfix ts e → Callable ts → Arguments us es →
      Postfix (ts ++ ⟨.openParen, s⟩ :: us ++ [⟨.closeParen, s'⟩]) (.apply e es)

inductive Primary : List Lexeme → Tree → Prop
  | literal {t v} : Value t.token v → Primary [t] (.literal v)
  | group {ts e s s'} : Disjunction ts e →
      Primary (⟨.openParen, s⟩ :: ts ++ [⟨.closeParen, s'⟩]) e
  | context {name root s} : root ∈ contexts → Text.sameName root name →
      Primary [⟨.ident name, s⟩] (.context (Text.asciiLower name))
  | call {ts name es s s' s''} : Arguments ts es →
      Primary (⟨.ident name, s⟩ :: ⟨.openParen, s'⟩ :: ts ++ [⟨.closeParen, s''⟩])
        (.call name es)

inductive Arguments : List Lexeme → List Tree → Prop
  | none : Arguments [] []
  | some {ts es} : Listed ts es → Arguments ts es

inductive Listed : List Lexeme → List Tree → Prop
  | one {ts e} : Disjunction ts e → Listed ts [e]
  | more {ts us es e s} : Listed ts es → Disjunction us e →
      Listed (ts ++ ⟨.comma, s⟩ :: us) (es ++ [e])

end

theorem comparison?_eq_some {t : Token} {op : BinaryOp} :
    comparison? t = some op ↔ Relation t op := by
  constructor
  · intro h
    cases t <;> cases h <;> constructor
  · rintro ⟨⟩ <;> rfl

theorem propertyName?_eq_some {t : Token} {name : String} :
    propertyName? t = some name ↔ Name t name := by
  constructor
  · intro h
    cases t <;> cases h <;> constructor
  · rintro ⟨⟩ <;> rfl

theorem literal?_eq_some {t : Token} {v : Literal} : literal? t = some v ↔ Value t v := by
  constructor
  · intro h
    cases t <;> cases h <;> constructor
  · rintro ⟨⟩ <;> rfl

theorem isContext_iff (name : String) :
    isContext name = true ↔ ∃ root ∈ contexts, Text.sameName root name = true := by
  simp [isContext]

theorem Callable.of_two_le {ts : List Lexeme} (h : 2 ≤ ts.length) : Callable ts := by
  intro name s hts
  simp [hts] at h

theorem Callable.closed (ts us : List Lexeme) (t u : Lexeme) :
    Callable (ts ++ t :: us ++ [u]) := by
  refine .of_two_le ?_
  simp only [List.length_append, List.length_cons, List.length_nil]
  omega

end Grammar
end WorkflowLint.Expr
