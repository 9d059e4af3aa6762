import WorkflowLint.Proofs.Expr.Word

/-! Where a token ends. The longest token is taken, so that what stands behind a token has a say in
where it ends; a text that ends there, or goes on with layout, leaves the token as it is. -/
namespace WorkflowLint.Expr

def Breaks (text : List Char) : Prop := ∀ c ∈ text.head?, isLayout c = true

theorem Breaks.nil : Breaks [] := by
  intro c hc
  cases hc

theorem Breaks.cons {c : Char} (h : isLayout c = true) (text : List Char) :
    Breaks (c :: text) := by
  intro d hd
  cases hd
  exact h

theorem Breaks.not_first {text : List Char} (h : Breaks text) {d : Char}
    (hd : isLayout d = false) (rest : List Char) : text ≠ d :: rest := by
  intro htext
  rw [htext] at h
  have hfirst := h d rfl
  rw [hd] at hfirst
  cases hfirst

def Dark (p : Char → Bool) : Prop := ∀ c, isLayout c = true → p c = false

theorem dark_of_spaces {p : Char → Bool}
    (h : p ' ' = false ∧ p '\t' = false ∧ p '\n' = false ∧ p '\r' = false) : Dark p := by
  intro c hc
  simp only [isLayout, Bool.or_eq_true, decide_eq_true_eq] at hc
  obtain ((rfl | rfl) | rfl) | rfl := hc
  · exact h.1
  · exact h.2.1
  · exact h.2.2.1
  · exact h.2.2.2

theorem dark_isDigit : Dark Char.isDigit := dark_of_spaces (by decide)

theorem dark_isHexDigit : Dark isHexDigit := dark_of_spaces (by decide)

theorem dark_isNameChar : Dark isNameChar := dark_of_spaces (by decide)

/-! Characters of a class -/

theorem run_cons (p : Char → Bool) (c : Char) (text : List Char) :
    run p (c :: text) = if p c then run p text + 1 else 0 := by
  unfold run
  rw [List.takeWhile_cons]
  split <;> rfl

theorem run_le (p : Char → Bool) (text : List Char) : run p text ≤ text.length :=
  (List.takeWhile_prefix p).length_le

section
variable {word after tail : List Char}

theorem run_of_breaks {p : Char → Bool} (hp : Dark p) (ht : Breaks tail) : run p tail = 0 := by
  cases tail with
  | nil => rfl
  | cons c tail => rw [run_cons, hp c (ht c rfl), if_neg Bool.false_ne_true]

theorem run_tail {p : Char → Bool} (hp : Dark p) (ht : Breaks tail)
    (h : run p (word ++ after) ≤ word.length) : run p (word ++ tail) = run p (word ++ after) := by
  induction word with
  | nil =>
    rw [List.nil_append, List.nil_append, run_of_breaks hp ht]
    exact (Nat.le_zero.mp h).symm
  | cons c word ih =>
    rw [List.cons_append, run_cons] at h
    rw [List.cons_append, List.cons_append, run_cons, run_cons]
    split
    next hc =>
      rw [if_pos hc] at h
      rw [ih (Nat.le_of_succ_le_succ h)]
    next => rfl

/-! Numbers -/

theorem fractionLength_cons (c : Char) (text : List Char) : fractionLength (c :: text) =
    if c = '.' then
      if run Char.isDigit text = 0 then 0 else 1 + run Char.isDigit text
    else 0 := by
  unfold fractionLength
  split
  next heq =>
    cases heq
    rfl
  next hno =>
    have hc : c ≠ '.' := fun hc => hno text (by rw [hc])
    rw [if_neg hc]

theorem fractionLength_le (text : List Char) : fractionLength text ≤ text.length := by
  cases text with
  | nil => exact Nat.le_refl 0
  | cons c text =>
    have hle := run_le Char.isDigit text
    rw [fractionLength_cons, List.length_cons]
    split
    · split <;> omega
    · omega

theorem fractionLength_of_breaks (ht : Breaks tail) : fractionLength tail = 0 := by
  unfold fractionLength
  split
  next rest => exact absurd rfl (ht.not_first (by decide) rest)
  next => rfl

theorem fractionLength_tail (ht : Breaks tail)
    (h : fractionLength (word ++ after) ≤ word.length) :
    fractionLength (word ++ tail) = fractionLength (word ++ after) := by
  cases word with
  | nil =>
    rw [List.nil_append, List.nil_append, fractionLength_of_breaks ht]
    exact (Nat.le_zero.mp h).symm
  | cons c word =>
    rw [List.cons_append, fractionLength_cons, List.length_cons] at h
    rw [List.cons_append, List.cons_append, fractionLength_cons, fractionLength_cons]
    split
    next hc =>
      rw [if_pos hc] at h
      have hrun : run Char.isDigit (word ++ after) ≤ word.length := by
        split at h <;> omega
      rw [run_tail dark_isDigit ht hrun]
    next => rfl

theorem signLength_of_breaks (ht : Breaks tail) : signLength tail = 0 := by
  unfold signLength
  split
  next rest => exact absurd rfl (ht.not_first (by decide) rest)
  next rest => exact absurd rfl (ht.not_first (by decide) rest)
  next => rfl

theorem signLength_le (text : List Char) : signLength text ≤ text.length := by
  unfold signLength
  split <;> simp

theorem exponentLength_le (text : List Char) : exponentLength text ≤ text.length := by
  cases text with
  | nil => exact Nat.le_refl 0
  | cons e text =>
    have hsign := signLength_le text
    have hdigits := run_le Char.isDigit (text.drop (signLength text))
    rw [List.length_drop] at hdigits
    simp only [exponentLength, List.length_cons]
    split
    · split <;> omega
    · omega

theorem exponentLength_of_breaks (ht : Breaks tail) : exponentLength tail = 0 := by
  cases tail with
  | nil => rfl
  | cons e tail =>
    have he : ¬(e = 'e' ∨ e = 'E') := by
      rintro (rfl | rfl)
      · exact ht.not_first (by decide) tail rfl
      · exact ht.not_first (by decide) tail rfl
    rw [exponentLength, if_neg he]

theorem signLength_cons (c : Char) (text text' : List Char) :
    signLength (c :: text) = signLength (c :: text') := by
  unfold signLength
  split <;> simp_all

theorem signed_tail (ht : Breaks tail)
    (h : run Char.isDigit ((word ++ after).drop (signLength (word ++ after))) = 0 ∨
      signLength (word ++ after) +
        run Char.isDigit ((word ++ after).drop (signLength (word ++ after))) ≤ word.length) :
    run Char.isDigit ((word ++ tail).drop (signLength (word ++ tail))) =
        run Char.isDigit ((word ++ after).drop (signLength (word ++ after))) ∧
      (word ≠ [] → signLength (word ++ tail) = signLength (word ++ after)) := by
  cases word with
  | nil =>
    simp only [List.nil_append, List.length_nil] at h ⊢
    refine ⟨?_, fun hne => absurd rfl hne⟩
    rw [signLength_of_breaks ht, List.drop_zero, run_of_breaks dark_isDigit ht]
    omega
  | cons c word =>
    have hsign : signLength (c :: word ++ tail) = signLength (c :: word ++ after) :=
      signLength_cons c _ _
    have hle : signLength (c :: word ++ after) ≤ (c :: word).length := by
      have hone := signLength_le [c]
      rw [List.cons_append, signLength_cons c _ [], List.length_cons]
      rw [List.length_singleton] at hone
      omega
    refine ⟨?_, fun _ => hsign⟩
    rw [List.drop_append_of_le_length hle] at h
    rw [hsign, List.drop_append_of_le_length hle, List.drop_append_of_le_length hle]
    refine run_tail dark_isDigit ht ?_
    rw [List.length_drop]
    omega

theorem exponentLength_tail (ht : Breaks tail)
    (h : exponentLength (word ++ after) ≤ word.length) :
    exponentLength (word ++ tail) = exponentLength (word ++ after) := by
  cases word with
  | nil =>
    rw [List.nil_append, List.nil_append, exponentLength_of_breaks ht]
    exact (Nat.le_zero.mp h).symm
  | cons e word =>
    simp only [List.cons_append, exponentLength, List.length_cons] at h ⊢
    by_cases he : e = 'e' ∨ e = 'E'
    · rw [if_pos he] at h
      rw [if_pos he, if_pos he]
      obtain ⟨hdigits, hsign⟩ := @signed_tail word after tail ht (by split at h <;> omega)
      rw [hdigits]
      split
      · rfl
      next hsome =>
        have hne : word ≠ [] := by
          rintro rfl
          rw [if_neg hsome] at h
          simp only [List.length_nil] at h
          omega
        rw [hsign hne]
    · rw [if_neg he, if_neg he]

theorem decimalLength_le (text : List Char) : decimalLength text ≤ text.length := by
  have hwhole := run_le Char.isDigit text
  have hfraction := fractionLength_le (text.drop (run Char.isDigit text))
  have hexponent := exponentLength_le (text.drop (run Char.isDigit text +
    fractionLength (text.drop (run Char.isDigit text))))
  simp only [List.length_drop] at hfraction hexponent
  simp only [decimalLength]
  omega

theorem decimalLength_tail (ht : Breaks tail)
    (h : decimalLength (word ++ after) ≤ word.length) :
    decimalLength (word ++ tail) = decimalLength (word ++ after) := by
  have hdrop {n : Nat} (hn : n ≤ word.length) (rest : List Char) :
      (word ++ rest).drop n = word.drop n ++ rest := List.drop_append_of_le_length hn
  simp only [decimalLength] at h
  generalize hw : run Char.isDigit (word ++ after) = whole at h
  have hwn : whole ≤ word.length := by omega
  rw [hdrop hwn] at h
  generalize hf : fractionLength (word.drop whole ++ after) = fraction at h
  have hfn : whole + fraction ≤ word.length := by omega
  rw [hdrop hfn] at h
  have hwhole : run Char.isDigit (word ++ tail) = whole := by
    rw [run_tail dark_isDigit ht (Nat.le_trans (Nat.le_of_eq hw) hwn), hw]
  have hfraction : fractionLength (word.drop whole ++ tail) = fraction := by
    rw [← hf]
    exact fractionLength_tail ht (by rw [List.length_drop]; omega)
  have hexponent : exponentLength (word.drop (whole + fraction) ++ tail) =
      exponentLength (word.drop (whole + fraction) ++ after) :=
    exponentLength_tail ht (by rw [List.length_drop]; omega)
  simp only [decimalLength, hwhole, hw, hdrop hwn, hfraction, hf, hdrop hfn, hexponent]

/-! Hexadecimal digits -/

theorem hexLength_le {c : Char} {text : List Char} (h : 0 < hexLength c text) :
    1 + hexLength c text ≤ text.length := by
  cases text with
  | nil => cases h
  | cons x text =>
    have hle := run_le isHexDigit text
    rw [hexLength, List.length_cons]
    split <;> omega

theorem hexLength_of_breaks (c : Char) (ht : Breaks tail) : hexLength c tail = 0 := by
  cases tail with
  | nil => rfl
  | cons x tail =>
    have hx : ¬(x = 'x' ∨ x = 'X') := by
      rintro (rfl | rfl)
      · exact ht.not_first (by decide) tail rfl
      · exact ht.not_first (by decide) tail rfl
    simp [hexLength, hx]

theorem hexLength_tail {c : Char} (ht : Breaks tail)
    (h : 0 < hexLength c (word ++ after) → hexLength c (word ++ after) < word.length) :
    hexLength c (word ++ tail) = hexLength c (word ++ after) := by
  cases word with
  | nil =>
    rw [List.nil_append, List.nil_append, hexLength_of_breaks c ht]
    simp only [List.nil_append, List.length_nil] at h
    omega
  | cons x word =>
    simp only [List.cons_append, hexLength, List.length_cons] at h ⊢
    split
    next hx =>
      simp only [hx, if_true] at h
      exact run_tail dark_isHexDigit ht (by omega)
    next => rfl

/-! Strings -/

theorem stringBody_tail {s : List Char} {n : Nat} (ht : Breaks tail)
    (h : stringBody (word ++ after) = some (s, n)) (hn : n ≤ word.length) :
    stringBody (word ++ tail) = some (s, n) := by
  fun_induction stringBody word generalizing s n with
  | case1 =>
    have hpos := (stringBody_length h).1
    rw [List.length_nil] at hn
    omega
  | case2 rest ih =>
    obtain ⟨⟨s', m⟩, hm, he⟩ := Option.map_eq_some_iff.mp h
    cases he
    simp only [List.length_cons] at hn
    simp only [List.cons_append, stringBody, ih hm (by omega), Option.map_some]
  | case3 rest hrest =>
    cases rest with
    | nil =>
      have hafter (r : List Char) (heq : after = '\'' :: r) : False := by
        subst heq
        obtain ⟨⟨s', m⟩, -, he⟩ := Option.map_eq_some_iff.mp h
        cases he
        simp only [List.length_cons, List.length_nil] at hn
        omega
      exact (stringBody.eq_3 tail (ht.not_first (by decide))).trans
        ((stringBody.eq_3 after hafter).symm.trans h)
    | cons d rest =>
      have hd (more r : List Char) (heq : d :: (rest ++ more) = '\'' :: r) : False := by
        cases heq
        exact hrest rest rfl
      exact (stringBody.eq_3 _ (hd tail)).trans ((stringBody.eq_3 _ (hd after)).symm.trans h)
  | case4 c rest hdouble hc ih =>
    have hno (more r : List Char) (heq : c = '\'') : rest ++ more = '\'' :: r → False :=
      absurd heq hc
    rw [List.cons_append, stringBody.eq_4 c _ (hno after) hc] at h
    obtain ⟨⟨s', m⟩, hm, he⟩ := Option.map_eq_some_iff.mp h
    cases he
    rw [List.length_cons] at hn
    rw [List.cons_append, stringBody.eq_4 c _ (hno tail) hc, ih hm (by omega)]
    rfl

/-! Marks -/

theorem pairToken?_of_isLayout (c : Char) {d : Char} (h : isLayout d = true) :
    pairToken? c d = none := by
  unfold pairToken?
  split
  · cases h
  · cases h
  · cases h
  · cases h
  · cases h
  · cases h
  · rfl

theorem markFrom_of_breaks (c : Char) (ht : Breaks tail) : markFrom c tail = (markToken? c, 0) := by
  cases tail with
  | nil => rfl
  | cons d tail => simp only [markFrom, pairToken?_of_isLayout c (ht d rfl)]

theorem markFrom_le (c : Char) (text : List Char) : (markFrom c text).2 ≤ text.length := by
  unfold markFrom
  split
  · split <;> simp
  · exact Nat.le_refl 0

theorem markFrom_tail {c : Char} (ht : Breaks tail)
    (h : (markFrom c (word ++ after)).2 ≤ word.length) :
    markFrom c (word ++ tail) = markFrom c (word ++ after) := by
  cases word with
  | nil =>
    rw [List.nil_append, List.nil_append, markFrom_of_breaks c ht]
    unfold markFrom at h ⊢
    cases after with
    | nil => rfl
    | cons d after =>
      simp only [List.nil_append, List.length_nil] at h ⊢
      split at h
      next => cases h
      next => rfl
  | cons d word => rfl

/-! The next token -/

theorem nameFrom_tail {c : Char} (ht : Breaks tail)
    (h : (nameFrom c (word ++ after)).2 ≤ word.length) :
    nameFrom c (word ++ tail) = nameFrom c (word ++ after) := by
  simp only [nameFrom] at h ⊢
  rw [run_tail dark_isNameChar ht h, List.take_append_of_le_length h,
    List.take_append_of_le_length h]

theorem decimalFrom_tail {c : Char} (ht : Breaks tail)
    (h : (decimalFrom c (word ++ after)).2 ≤ word.length) :
    decimalFrom c (word ++ tail) = decimalFrom c (word ++ after) := by
  simp only [decimalFrom] at h ⊢
  rw [decimalLength_tail ht h, List.take_append_of_le_length h, List.take_append_of_le_length h]

theorem numberFrom_tail {c : Char} (ht : Breaks tail)
    (h : (numberFrom c (word ++ after)).2 ≤ word.length) :
    numberFrom c (word ++ tail) = numberFrom c (word ++ after) := by
  simp only [numberFrom] at h ⊢
  by_cases hhex : 0 < hexLength c (word ++ after)
  · rw [if_pos hhex] at h
    have hlength : hexLength c (word ++ tail) = hexLength c (word ++ after) :=
      hexLength_tail ht fun _ => by omega
    have hdigits (rest : List Char) : ((word ++ rest).drop 1).take (hexLength c (word ++ after)) =
        (word.drop 1).take (hexLength c (word ++ after)) := by
      rw [List.drop_append_of_le_length (by omega), List.take_append_of_le_length]
      rw [List.length_drop]
      omega
    rw [hlength, if_pos hhex, if_pos hhex, hdigits, hdigits]
  · rw [if_neg hhex] at h
    have hlength : hexLength c (word ++ tail) = hexLength c (word ++ after) :=
      hexLength_tail ht fun hpos => absurd hpos hhex
    rw [hlength, if_neg hhex, if_neg hhex, decimalFrom_tail ht h]

theorem stringFrom_tail {t : Token} {n : Nat} (ht : Breaks tail)
    (h : stringFrom (word ++ after) = (some t, n)) (hn : n ≤ word.length) :
    stringFrom (word ++ tail) = (some t, n) := by
  unfold stringFrom at h
  split at h
  next s m hs =>
    cases h
    simp only [stringFrom, stringBody_tail ht hs hn]
  next => cases h

theorem minusFrom_tail {c : Char} (ht : Breaks tail)
    (h : (if c = '-' && 0 < run Char.isDigit (word ++ after) then decimalFrom c (word ++ after)
      else markFrom c (word ++ after)).2 ≤ word.length) :
    (if c = '-' && 0 < run Char.isDigit (word ++ tail) then decimalFrom c (word ++ tail)
      else markFrom c (word ++ tail)) =
    (if c = '-' && 0 < run Char.isDigit (word ++ after) then decimalFrom c (word ++ after)
      else markFrom c (word ++ after)) := by
  by_cases hc : c = '-'
  · simp only [hc, decide_true, Bool.true_and, decide_eq_true_eq] at h ⊢
    have hrun : run Char.isDigit (word ++ tail) = run Char.isDigit (word ++ after) := by
      refine run_tail dark_isDigit ht ?_
      split at h
      next =>
        simp only [decimalFrom, decimalLength] at h
        omega
      next => omega
    rw [hrun]
    split
    next hpos =>
      rw [if_pos hpos] at h
      exact decimalFrom_tail ht h
    next hzero =>
      rw [if_neg hzero] at h
      exact markFrom_tail ht h
  · simp only [hc, decide_false, Bool.false_and, Bool.false_eq_true, if_false] at h ⊢
    exact markFrom_tail ht h

/-- A token that is taken from a text is taken from any other text with the same beginning that
breaks right behind the token, or later. -/
theorem nextToken_tail {c : Char} {t : Token} {n : Nat} (ht : Breaks tail)
    (h : nextToken c (word ++ after) = (some t, n)) (hn : n ≤ word.length) :
    nextToken c (word ++ tail) = (some t, n) := by
  have htaken {found : Option Token × Nat} (hf : found = (some t, n)) : found.2 ≤ word.length := by
    rw [hf]
    exact hn
  unfold nextToken at h ⊢
  split at h
  next hc => rw [if_pos hc, nameFrom_tail ht (htaken h), h]
  next hname =>
    rw [if_neg hname]
    split at h
    next hc => rw [if_pos hc, stringFrom_tail ht h hn]
    next hquote =>
      rw [if_neg hquote]
      split at h
      next hc => rw [if_pos hc, numberFrom_tail ht (htaken h), h]
      next hdigit => rw [if_neg hdigit, minusFrom_tail ht (htaken h), h]

theorem nextToken_le (c : Char) (text : List Char) : (nextToken c text).2 ≤ text.length := by
  unfold nextToken
  split
  next => exact run_le isNameChar text
  next =>
    split
    next =>
      unfold stringFrom
      split
      next hs => exact (stringBody_length hs).2
      next => exact Nat.le_refl _
    next =>
      split
      next =>
        simp only [numberFrom]
        split
        next hhex => exact hexLength_le hhex
        next => exact decimalLength_le text
      next =>
        split
        next => exact decimalLength_le text
        next => exact markFrom_le c text

end
end WorkflowLint.Expr
