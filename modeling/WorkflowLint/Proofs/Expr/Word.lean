import WorkflowLint.Expr.Lexer

/-! The characters of a token. Quotes and braces stand in string literals only. -/
namespace WorkflowLint.Expr
open Decimal (isNumberChar)

def Plain (c : Char) : Prop := c ≠ '\'' ∧ c ≠ '\x7d'

instance (c : Char) : Decidable (Plain c) := inferInstanceAs (Decidable (_ ∧ _))

theorem Plain.of_class {p : Char → Bool} (hq : p '\'' = false) (hb : p '\x7d' = false) {c : Char}
    (h : p c = true) : Plain c := by
  constructor
  · rintro rfl
    rw [hq] at h
    cases h
  · rintro rfl
    rw [hb] at h
    cases h

theorem take_run (p : Char → Bool) (text : List Char) :
    text.take (run p text) = text.takeWhile p :=
  (List.prefix_iff_eq_take.1 (List.takeWhile_prefix p)).symm

theorem mem_take_run {p : Char → Bool} {text : List Char} {c : Char}
    (h : c ∈ text.take (run p text)) : p c = true := by
  rw [take_run] at h
  exact List.all_eq_true.1 List.all_takeWhile c h

theorem isNumberChar_of_isDigit {c : Char} (h : c.isDigit = true) : isNumberChar c = true := by
  simp [isNumberChar, h]

theorem mem_take_fractionLength {text : List Char} {c : Char}
    (h : c ∈ text.take (fractionLength text)) : isNumberChar c = true := by
  unfold fractionLength at h
  split at h
  next rest =>
    split at h
    next => simp at h
    next =>
      rw [Nat.add_comm, List.take_succ_cons] at h
      obtain rfl | h := List.mem_cons.1 h
      · decide
      · exact isNumberChar_of_isDigit (mem_take_run h)
  next => simp at h

theorem mem_take_signLength {text : List Char} {c : Char}
    (h : c ∈ text.take (signLength text)) : isNumberChar c = true := by
  unfold signLength at h
  split at h
  next =>
    obtain rfl : c = '+' := by simpa using h
    decide
  next =>
    obtain rfl : c = '-' := by simpa using h
    decide
  next => simp at h

theorem mem_take_exponentLength {text : List Char} {c : Char}
    (h : c ∈ text.take (exponentLength text)) : isNumberChar c = true := by
  unfold exponentLength at h
  split at h
  next => simp at h
  next e rest =>
    split at h
    next he =>
      simp only at h
      split at h
      next => simp at h
      next =>
        rw [Nat.add_assoc, Nat.add_comm 1, List.take_succ_cons, List.take_add] at h
        obtain rfl | h := List.mem_cons.1 h
        · obtain rfl | rfl := he <;> decide
        · obtain h | h := List.mem_append.1 h
          · exact mem_take_signLength h
          · exact isNumberChar_of_isDigit (mem_take_run h)
    next => simp at h

theorem mem_take_decimalLength {text : List Char} {c : Char}
    (h : c ∈ text.take (decimalLength text)) : isNumberChar c = true := by
  simp only [decimalLength, List.take_add, List.mem_append] at h
  obtain (h | h) | h := h
  · exact isNumberChar_of_isDigit (mem_take_run h)
  · exact mem_take_fractionLength h
  · exact mem_take_exponentLength h

theorem plain_of_isNumberChar {c : Char} (h : isNumberChar c = true) : Plain c :=
  .of_class (by decide) (by decide) h

theorem plain_of_isNameChar {c : Char} (h : isNameChar c = true) : Plain c :=
  .of_class (by decide) (by decide) h

theorem plain_of_isHexDigit {c : Char} (h : isHexDigit c = true) : Plain c :=
  .of_class (by decide) (by decide) h

theorem plain_of_isLayout {c : Char} (h : isLayout c = true) : Plain c :=
  .of_class (by decide) (by decide) h

theorem plain_of_markToken? {c : Char} {t : Token} (h : markToken? c = some t) : Plain c :=
  .of_class (p := fun c => (markToken? c).isSome) rfl rfl (by simp [h])

theorem plain_of_pairToken? {c d : Char} {t : Token} (h : pairToken? c d = some t) :
    Plain c ∧ Plain d := by
  unfold pairToken? at h
  split at h <;> cases h <;> decide

theorem nameFrom_plain {c : Char} {rest : List Char} {x : Option Token} {n : Nat}
    (hc : isNameStart c = true) (h : nameFrom c rest = (x, n)) :
    ∀ d ∈ c :: rest.take n, Plain d := by
  obtain ⟨-, rfl⟩ := Prod.mk.inj h
  intro d hd
  obtain rfl | hd := List.mem_cons.1 hd
  · exact .of_class (by decide) (by decide) hc
  · exact plain_of_isNameChar (mem_take_run hd)

theorem decimalFrom_plain {c : Char} {rest : List Char} {x : Option Token} {n : Nat}
    (hc : isNumberChar c = true) (h : decimalFrom c rest = (x, n)) :
    ∀ d ∈ c :: rest.take n, Plain d := by
  obtain ⟨-, rfl⟩ := Prod.mk.inj h
  intro d hd
  obtain rfl | hd := List.mem_cons.1 hd
  · exact plain_of_isNumberChar hc
  · exact plain_of_isNumberChar (mem_take_decimalLength hd)

theorem mem_take_hexLength {c : Char} {rest : List Char} (h : 0 < hexLength c rest) {d : Char}
    (hd : d ∈ rest.take (1 + hexLength c rest)) : Plain d := by
  unfold hexLength at h hd
  split at h
  next x digits =>
    split at h
    next hx =>
      simp only [hx, if_true, Nat.add_comm 1, List.take_succ_cons] at hd
      obtain rfl | hd := List.mem_cons.1 hd
      · simp only [Bool.and_eq_true, Bool.or_eq_true, decide_eq_true_eq] at hx
        obtain rfl | rfl := hx.2 <;> decide
      · exact plain_of_isHexDigit (mem_take_run hd)
    next => exact absurd h (Nat.lt_irrefl 0)
  next => exact absurd h (Nat.lt_irrefl 0)

theorem numberFrom_plain {c : Char} {rest : List Char} {x : Option Token} {n : Nat}
    (hc : c.isDigit = true) (h : numberFrom c rest = (x, n)) :
    ∀ d ∈ c :: rest.take n, Plain d := by
  have hn := isNumberChar_of_isDigit hc
  simp only [numberFrom] at h
  split at h
  next hhex =>
    obtain ⟨-, rfl⟩ := Prod.mk.inj h
    intro d hd
    obtain rfl | hd := List.mem_cons.1 hd
    · exact plain_of_isNumberChar hn
    · exact mem_take_hexLength hhex hd
  next => exact decimalFrom_plain hn h

theorem markFrom_plain {c : Char} {rest : List Char} {t : Token} {n : Nat}
    (h : markFrom c rest = (some t, n)) : ∀ d ∈ c :: rest.take n, Plain d := by
  unfold markFrom at h
  split at h
  next d rest =>
    split at h
    next t hp =>
      cases h
      simpa using plain_of_pairToken? hp
    next =>
      obtain ⟨hm, rfl⟩ := Prod.mk.inj h
      simpa using plain_of_markToken? hm
  next =>
    obtain ⟨hm, rfl⟩ := Prod.mk.inj h
    simpa using plain_of_markToken? hm

theorem stringFrom_body {rest : List Char} {t : Token} {n : Nat}
    (h : stringFrom rest = (some t, n)) : ∃ s, stringBody rest = some (s, n) := by
  unfold stringFrom at h
  split at h
  next s m hs =>
    cases h
    exact ⟨s, hs⟩
  next => cases h

theorem stringBody_length {text s : List Char} {n : Nat} (h : stringBody text = some (s, n)) :
    0 < n ∧ n ≤ text.length := by
  fun_induction stringBody text generalizing s n with
  | case1 => cases h
  | case2 rest ih =>
    obtain ⟨⟨s', m⟩, hm, he⟩ := Option.map_eq_some_iff.mp h
    cases he
    have hle := (ih hm).2
    simp only [List.length_cons]
    omega
  | case3 rest =>
    cases h
    simp
  | case4 c rest _ _ ih =>
    obtain ⟨⟨s', m⟩, hm, he⟩ := Option.map_eq_some_iff.mp h
    cases he
    have hle := (ih hm).2
    simp only [List.length_cons]
    omega

/-- A token is a string literal, or all of its characters are plain. -/
theorem nextToken_word {c : Char} {rest : List Char} {t : Token} {n : Nat}
    (h : nextToken c rest = (some t, n)) :
    (c = '\'' ∧ ∃ s, stringBody rest = some (s, n)) ∨ ∀ d ∈ c :: rest.take n, Plain d := by
  unfold nextToken at h
  split at h
  next hc => exact .inr (nameFrom_plain hc h)
  next =>
    split at h
    next hc => exact .inl ⟨hc, stringFrom_body h⟩
    next =>
      split at h
      next hc => exact .inr (numberFrom_plain hc h)
      next =>
        split at h
        next hc =>
          obtain ⟨rfl, -⟩ : c = '-' ∧ 0 < run Char.isDigit rest := by simpa using hc
          exact .inr (decimalFrom_plain (by decide) h)
        next => exact .inr (markFrom_plain h)

end WorkflowLint.Expr
