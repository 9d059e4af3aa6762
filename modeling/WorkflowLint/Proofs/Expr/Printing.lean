import Mathlib.Data.List.TakeWhile
import WorkflowLint.Proofs.Expr.Lexemes

/-! Tokens that are written down with a space between any two of them are read as these tokens. A
string may have any characters, quotes at its ends included. -/
namespace WorkflowLint.Expr
open Text

def IsName (name : List Char) : Prop :=
  ∃ c rest, name = c :: rest ∧ isNameStart c = true ∧ ∀ d ∈ rest, isNameChar d = true

/-- Tokens that are read as they are written: no numbers, and no identifiers but names that are no
keywords. -/
def Token.Writable : Token → Prop
  | .number _ => False
  | .ident name => IsName name.toList ∧ name ∉ ["true", "false", "null"]
  | _ => True

def written (ts : List Token) : List Char := [' '].intercalate (ts.map (·.text.toList))

def placed (offset : Nat) : List Token → List Lexeme
  | [] => []
  | t :: ts =>
    let stop := offset + byteLength t.text.toList
    ⟨t, ⟨offset, stop⟩⟩ :: placed (stop + 1) ts

theorem written_singleton (t : Token) : written [t] = t.text.toList := by
  simp [written, List.intercalate]

theorem written_cons_cons (t u : Token) (ts : List Token) :
    written (t :: u :: ts) = t.text.toList ++ ' ' :: written (u :: ts) := by
  simp [written, List.intercalate]

/-! Words -/

theorem stringBody_doubleQuotes (chars : List Char) :
    stringBody (Token.doubleQuotes chars ++ ['\'']) =
      some (chars, (Token.doubleQuotes chars).length + 1) := by
  induction chars with
  | nil => rfl
  | cons c chars ih =>
    by_cases hc : c = '\''
    · simp only [Token.doubleQuotes, hc, if_true, List.cons_append, stringBody, ih,
        Option.map_some, List.length_cons]
    · have hdouble (rest : List Char) (heq : c = '\'') :
          Token.doubleQuotes chars ++ ['\''] = '\'' :: rest → False := absurd heq hc
      rw [Token.doubleQuotes, if_neg hc, List.cons_append, stringBody.eq_4 c _ hdouble hc, ih]
      rfl

theorem isWord_string (s : String) : IsWord (.string s) (Token.string s).text.toList := by
  refine ⟨'\'', Token.doubleQuotes s.toList ++ ['\''], ?_, by decide, ?_⟩
  · rw [Token.text, String.toList_ofList, List.cons_append]
  · have hstring : stringFrom (Token.doubleQuotes s.toList ++ ['\'']) =
        (some (.string s), (Token.doubleQuotes s.toList).length + 1) := by
      rw [stringFrom, stringBody_doubleQuotes]
      simp
    rw [nextToken, if_neg (by decide), if_pos rfl, hstring, List.length_append]
    rfl

theorem wordToken_eq_ident {name : String} (h : name ∉ ["true", "false", "null"]) :
    wordToken name.toList = .ident name := by
  simp only [List.mem_cons, List.not_mem_nil, or_false, not_or] at h
  obtain ⟨htrue, hfalse, hnull⟩ := h
  rw [wordToken, if_neg (mt String.toList_inj.mp htrue), if_neg (mt String.toList_inj.mp hfalse),
    if_neg (mt String.toList_inj.mp hnull), String.ofList_toList]

theorem isWord_ident {name : String} (hname : IsName name.toList)
    (hkeyword : name ∉ ["true", "false", "null"]) :
    IsWord (.ident name) (Token.ident name).text.toList := by
  obtain ⟨c, rest, htext, hc, hrest⟩ := hname
  have hrun : run isNameChar rest = rest.length := by
    rw [run, List.takeWhile_eq_self_iff.mpr hrest]
  refine ⟨c, rest, htext, ?_, ?_⟩
  · refine Bool.eq_false_iff.mpr fun hlayout => ?_
    have hdark : Dark isNameStart := dark_of_spaces (by decide)
    rw [hdark c hlayout] at hc
    cases hc
  · rw [nextToken, if_pos hc, nameFrom, hrun, List.take_length, ← htext,
      wordToken_eq_ident hkeyword]

theorem isWord_text {t : Token} (h : t.Writable) : IsWord t t.text.toList := by
  cases t with
  | number x => cases h
  | string s => exact isWord_string s
  | ident name => exact isWord_ident h.1 h.2
  | _ => exact ⟨_, _, rfl, rfl, rfl⟩

/-! Texts -/

theorem lexes_written {ts : List Token} (h : ∀ t ∈ ts, t.Writable) (offset : Nat) :
    Lexes offset (written ts) (placed offset ts) := by
  induction ts generalizing offset with
  | nil => exact .nil offset
  | cons t ts ih =>
    obtain ⟨ht, hts⟩ := List.forall_mem_cons.mp h
    have hword := isWord_text ht
    cases ts with
    | nil =>
      rw [written_singleton, ← List.append_nil t.text.toList]
      exact hword.lexes .nil (.nil _)
    | cons u ts =>
      rw [written_cons_cons]
      exact hword.lexes (.cons (by decide) _) (.layout (by decide) (ih hts _))

theorem placed_occupies (before : List Char) (ts : List Token) :
    ∀ t ∈ placed (byteLength before) ts,
      Occupies (before ++ written ts) t.token.text.toList t.span := by
  induction ts generalizing before with
  | nil => simp [placed]
  | cons t ts ih =>
    have hstop : byteLength before + byteLength t.text.toList =
        byteLength (before ++ t.text.toList) := (byteLength_append _ _).symm
    have hspace : byteLength (before ++ t.text.toList) + 1 =
        byteLength (before ++ t.text.toList ++ [' ']) := by
      rw [byteLength_append _ [' ']]
      rfl
    cases ts with
    | nil =>
      intro x hx
      obtain rfl := List.mem_singleton.mp hx
      exact ⟨before, [], by rw [written_singleton, List.append_nil], by rw [hstop]⟩
    | cons u ts =>
      rw [written_cons_cons]
      intro x hx
      obtain rfl | hx := List.mem_cons.mp hx
      · exact ⟨before, ' ' :: written (u :: ts), by simp, by rw [hstop]⟩
      · rw [hstop, hspace] at hx
        simpa using ih _ x hx

theorem map_token_placed (offset : Nat) (ts : List Token) :
    (placed offset ts).map (·.token) = ts := by
  induction ts generalizing offset with
  | nil => rfl
  | cons t ts ih => rw [placed, List.map_cons, ih]

/-- Tokens that are written down are read back, each where it was written. -/
theorem lex_written {ts : List Token} (h : ∀ t ∈ ts, t.Writable) :
    lex (written ts) = .ok (placed 0 ts) ∧ (placed 0 ts).map (·.token) = ts ∧
      ∀ t ∈ placed 0 ts, Occupies (written ts) t.token.text.toList t.span :=
  ⟨lexFrom_eq_ok_iff.mpr (lexes_written h 0), map_token_placed 0 ts, placed_occupies [] ts⟩

def tricky : List Token :=
  [.string "'é''", .string "'", .not, .eq, .lt, .string "", .ident "true-", .dot, .null]

theorem lex_written_tricky : (∀ t ∈ tricky, t.Writable) ∧
    written tricky = "'''é''''' '''' ! == < '' true- . null".toList ∧
    lex (written tricky) = .ok (placed 0 tricky) := by
  have hwritable : ∀ t ∈ tricky, t.Writable := by
    simp only [tricky, List.forall_mem_cons]
    refine ⟨trivial, trivial, trivial, trivial, trivial, trivial, ⟨?_, by decide⟩, trivial, trivial,
      by simp⟩
    exact ⟨'t', ['r', 'u', 'e', '-'], rfl, by decide, List.all_eq_true.mp (by decide)⟩
  exact ⟨hwritable, by decide, (lex_written hwritable).1⟩

end WorkflowLint.Expr
