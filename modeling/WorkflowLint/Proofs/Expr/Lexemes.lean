import Mathlib.Data.List.Forall2
import WorkflowLint.Proofs.Expr.Boundary

/-! The tokens of a text as a relation, which is followed from one token to the next. Tokens have
their places in the text in order, and a stretch of a text from one token to another one has just
the tokens that stand in it. -/
namespace WorkflowLint

namespace Text

/-- The characters at a place of a text, which is given in bytes. -/
def Occupies (text chars : List Char) (s : Span) : Prop :=
  ∃ before after, text = before ++ chars ++ after ∧
    s = ⟨byteLength before, byteLength (before ++ chars)⟩

end Text

namespace Expr
open Text

inductive Lexes : Nat → List Char → List Lexeme → Prop
  | nil (offset : Nat) : Lexes offset [] []
  | layout {offset c rest ts} : isLayout c = true → Lexes (offset + c.utf8Size) rest ts →
      Lexes offset (c :: rest) ts
  | token {offset c word rest t ts} : isLayout c = false →
      nextToken c (word ++ rest) = (some t, word.length) →
      Lexes (offset + byteLength (c :: word)) rest ts →
      Lexes offset (c :: word ++ rest) (⟨t, ⟨offset, offset + byteLength (c :: word)⟩⟩ :: ts)

theorem lexes_of_lexFrom {offset : Nat} {text : List Char} {ts : List Lexeme}
    (h : lexFrom offset text = .ok ts) : Lexes offset text ts := by
  fun_induction lexFrom offset text generalizing ts with
  | case1 offset =>
    cases h
    exact .nil offset
  | case2 offset c rest hc ih => exact .layout hc (ih h)
  | case3 => cases h
  | case4 offset c rest hc found word stop t ht =>
    rename_i ih
    cases hrest : lexFrom stop (rest.drop found.2) with
    | error e =>
      rw [hrest] at h
      cases h
    | ok more =>
      rw [hrest] at h
      cases h
      have hlength : (rest.take found.2).length = found.2 :=
        List.length_take_of_le (nextToken_le c rest)
      have hnext : nextToken c (rest.take found.2 ++ rest.drop found.2) =
          (some t, (rest.take found.2).length) := by
        rw [List.take_append_drop, hlength]
        exact Prod.ext ht rfl
      have htoken := Lexes.token (Bool.eq_false_iff.mpr hc) hnext (ih hrest)
      rwa [List.cons_append, List.take_append_drop] at htoken

theorem Lexes.lexFrom_eq {offset : Nat} {text : List Char} {ts : List Lexeme}
    (h : Lexes offset text ts) : lexFrom offset text = .ok ts := by
  induction h with
  | nil => rw [lexFrom]
  | layout hc _ ih => rw [lexFrom, if_pos hc, ih]
  | @token offset c word rest t ts hc hnext _ ih =>
    have htake : (word ++ rest).take word.length = word := List.take_left
    have hdrop : (word ++ rest).drop word.length = rest := List.drop_left
    rw [List.cons_append, lexFrom, if_neg (by simp [hc])]
    simp only [hnext, htake, hdrop, ih]
    rfl

theorem lexFrom_eq_ok_iff {offset : Nat} {text : List Char} {ts : List Lexeme} :
    lexFrom offset text = .ok ts ↔ Lexes offset text ts :=
  ⟨lexes_of_lexFrom, Lexes.lexFrom_eq⟩

/-! Places -/

theorem byteLength_pos (c : Char) (text : List Char) : 0 < byteLength (c :: text) :=
  Nat.add_pos_left c.utf8Size_pos _

structure Apart (ts : List Lexeme) : Prop where
  forward : ∀ t ∈ ts, t.span.start < t.span.stop
  order : ts.Pairwise fun a b => a.span.stop ≤ b.span.start

namespace Lexes

theorem start_le {offset : Nat} {text : List Char} {ts : List Lexeme} (h : Lexes offset text ts) :
    ∀ t ∈ ts, offset ≤ t.span.start := by
  induction h with
  | nil => simp
  | layout _ _ ih =>
    intro t ht
    have hle := ih t ht
    omega
  | token _ _ _ ih =>
    intro t ht
    obtain rfl | ht := List.mem_cons.mp ht
    · exact Nat.le_refl _
    · have hle := ih t ht
      omega

theorem apart {offset : Nat} {text : List Char} {ts : List Lexeme} (h : Lexes offset text ts) :
    Apart ts := by
  induction h with
  | nil => exact ⟨by simp, .nil⟩
  | layout _ _ ih => exact ih
  | @token offset c word rest t ts _ _ hrest ih =>
    have hpos := byteLength_pos c word
    refine ⟨List.forall_mem_cons.mpr ⟨?_, ih.forward⟩, .cons hrest.start_le ih.order⟩
    exact Nat.lt_add_of_pos_right hpos

theorem layout_outside {offset : Nat} {text : List Char} {ts : List Lexeme}
    (h : Lexes offset text ts) {before after : List Char} {c : Char}
    (htext : text = before ++ c :: after)
    (hout : ∀ t ∈ ts, ¬(t.span.start ≤ offset + byteLength before ∧
      offset + byteLength before < t.span.stop)) : isLayout c = true := by
  induction h generalizing before with
  | nil => simp at htext
  | @layout offset d rest ts hd _ ih =>
    cases before with
    | nil =>
      cases htext
      exact hd
    | cons e before =>
      cases htext
      refine ih rfl fun t ht => ?_
      rw [Nat.add_assoc]
      exact hout t ht
  | @token offset d word rest t ts _ _ _ ih =>
    obtain ⟨hself, hothers⟩ := List.forall_mem_cons.mp hout
    have hbehind (more : List Char) (hbefore : before = d :: word ++ more)
        (hrest : rest = more ++ c :: after) : isLayout c = true := by
      refine ih hrest fun t ht => ?_
      rw [Nat.add_assoc, ← byteLength_append, ← hbefore]
      exact hothers t ht
    obtain ⟨more, hbefore, hrest⟩ | ⟨more, hword, hrest⟩ := List.append_eq_append_iff.mp htext
    · exact hbehind more hbefore hrest
    · cases more with
      | nil => exact hbehind [] (by simpa using hword.symm) hrest.symm
      | cons e more =>
        refine absurd ⟨Nat.le_add_right _ _, ?_⟩ hself
        have hpos := byteLength_pos e more
        simp only [hword, byteLength_append]
        omega

/-! Stretches -/

theorem exists_behind {offset : Nat} {text : List Char} {ts : List Lexeme} {t : Lexeme}
    {us : List Lexeme} (h : Lexes offset text (ts ++ t :: us)) :
    ∃ before rest, text = before ++ rest ∧ t.span.start = offset + byteLength before ∧
      Lexes (offset + byteLength before) rest (t :: us) := by
  generalize hall : ts ++ t :: us = all at h
  induction h generalizing ts with
  | nil => simp at hall
  | @layout offset c rest all hc _ ih =>
    obtain ⟨before, rest, rfl, hstart, hlexes⟩ := ih hall
    rw [Nat.add_assoc] at hstart hlexes
    exact ⟨c :: before, rest, rfl, hstart, hlexes⟩
  | @token offset c word rest t' all hc hnext hrest ih =>
    cases ts with
    | nil =>
      cases hall
      exact ⟨[], c :: word ++ rest, rfl, rfl, .token hc hnext hrest⟩
    | cons u ts =>
      obtain ⟨before, rest, rfl, hstart, hlexes⟩ := ih (List.cons.inj hall).2
      rw [Nat.add_assoc, ← byteLength_append] at hstart hlexes
      exact ⟨c :: word ++ before, rest, (List.append_assoc ..).symm, hstart, hlexes⟩

theorem exists_before {offset : Nat} {text : List Char} {ts us : List Lexeme} {t : Lexeme}
    (h : Lexes offset text (ts ++ t :: us)) :
    ∃ rest after, text = rest ++ after ∧ t.span.stop = offset + byteLength rest ∧
      Lexes offset rest (ts ++ [t]) := by
  generalize hall : ts ++ t :: us = all at h
  induction h generalizing ts with
  | nil => simp at hall
  | @layout offset c rest all hc _ ih =>
    obtain ⟨rest, after, rfl, hstop, hlexes⟩ := ih hall
    rw [Nat.add_assoc] at hstop
    exact ⟨c :: rest, after, rfl, hstop, .layout hc hlexes⟩
  | @token offset c word rest t' all hc hnext hrest ih =>
    cases ts with
    | nil =>
      cases hall
      have hword : nextToken c (word ++ []) = (some t', word.length) :=
        nextToken_tail .nil hnext (Nat.le_refl _)
      have hlexes := Lexes.token hc hword (.nil (offset + byteLength (c :: word)))
      rw [List.append_nil] at hlexes
      exact ⟨c :: word, rest, rfl, rfl, hlexes⟩
    | cons u ts =>
      obtain ⟨rfl, hmore⟩ := List.cons.inj hall
      obtain ⟨rest, after, rfl, hstop, hlexes⟩ := ih hmore
      rw [Nat.add_assoc, ← byteLength_append] at hstop
      -- the word itself is untouched, what is left out stands behind the last token
      have hword : nextToken c (word ++ rest) = (some t', word.length) := by
        rw [← List.append_assoc] at hnext
        simpa using nextToken_tail .nil hnext (by simp)
      exact ⟨c :: word ++ rest, after, (List.append_assoc ..).symm, hstop, .token hc hword hlexes⟩

end Lexes

/-! Words -/

/-- The characters are one token, if nothing follows them. -/
def IsWord (t : Token) (word : List Char) : Prop :=
  ∃ c rest, word = c :: rest ∧ isLayout c = false ∧ nextToken c rest = (some t, rest.length)

/-- It is this token wherever it stands before layout or the end of the text. -/
theorem IsWord.lexes {t : Token} {word tail : List Char} {offset : Nat} {ts : List Lexeme}
    (hword : IsWord t word) (ht : Breaks tail) (h : Lexes (offset + byteLength word) tail ts) :
    Lexes offset (word ++ tail) (⟨t, ⟨offset, offset + byteLength word⟩⟩ :: ts) := by
  obtain ⟨c, rest, rfl, hc, hnext⟩ := hword
  rw [← List.append_nil rest] at hnext
  exact .token hc (by simpa using nextToken_tail ht hnext (by simp)) h

theorem Lexes.exists_words {text before : List Char} {ts : List Lexeme}
    (h : Lexes (byteLength before) text ts) :
    ∃ words, List.Forall₂ (fun t word => IsWord t.token word ∧
      Occupies (before ++ text) word t.span) ts words := by
  generalize hoffset : byteLength before = offset at h
  induction h generalizing before with
  | nil => exact ⟨[], .nil⟩
  | @layout offset c rest ts _ _ ih =>
    have hbefore : byteLength (before ++ [c]) = offset + c.utf8Size := by
      rw [byteLength_append, hoffset]
      rfl
    obtain ⟨words, hwords⟩ := ih hbefore
    rw [List.append_assoc] at hwords
    exact ⟨words, hwords⟩
  | @token offset c word rest t ts hc hnext _ ih =>
    have hbefore : byteLength (before ++ c :: word) = offset + byteLength (c :: word) := by
      rw [byteLength_append, hoffset]
    obtain ⟨words, hwords⟩ := ih hbefore
    rw [List.append_assoc] at hwords
    have hword : nextToken c word = (some t, word.length) := by
      simpa using nextToken_tail .nil hnext (Nat.le_refl _)
    refine ⟨(c :: word) :: words, .cons ⟨⟨c, word, rfl, hc, hword⟩, ?_⟩ hwords⟩
    exact ⟨before, rest, (List.append_assoc ..).symm, by rw [hbefore, hoffset]⟩

end Expr
end WorkflowLint
