import WorkflowLint.Proofs.Expr.Template

/-! Placeholders of a template. Behind any first part that can be filled in, a placeholder stands
for the argument of its index, and is an error if there is none. Only the largest word, to which
nothing can be added, ends the program. -/
namespace WorkflowLint.Expr.Builtin
variable {template : String} {all : List Json}

/-! Digits -/

theorem placeholder?_eq_some {text digits rest : List Char}
    (h : placeholder? text = some (digits, rest)) :
    text = digits ++ '\x7d' :: rest ∧ ∀ c ∈ digits, c.isDigit = true := by
  induction text generalizing digits with
  | nil => simp [placeholder?] at h
  | cons c text ih =>
    unfold placeholder? at h
    split at h
    next hclose =>
      obtain ⟨rfl, rfl⟩ := Prod.mk.inj (Option.some.inj h)
      exact ⟨by rw [hclose, List.nil_append], by simp⟩
    next hclose =>
      split at h
      next hdigit =>
        obtain ⟨⟨digits', rest'⟩, hrest, heq⟩ := Option.map_eq_some_iff.mp h
        obtain ⟨rfl, rfl⟩ := Prod.mk.inj heq
        obtain ⟨rfl, hdigits⟩ := ih hrest
        exact ⟨rfl, List.forall_mem_cons.mpr ⟨hdigit, hdigits⟩⟩
      next => cases h

theorem placeholderIndex?_of_fits {digits : List Char} (hsome : digits ≠ [])
    (hfits : Decimal.ofDigits digits < wordCount) :
    placeholderIndex? digits = some (Decimal.ofDigits digits) := by
  have hnot : ¬(digits.isEmpty = true ∨ wordCount ≤ Decimal.ofDigits digits) := by
    simp [hsome, hfits]
  simp only [placeholderIndex?, if_neg hnot]

theorem ne_nil_of_placeholderIndex? {digits : List Char} {index : Nat}
    (h : placeholderIndex? digits = some index) : digits ≠ [] := by
  rintro rfl
  cases h

theorem digits_ne_open {digits : List Char} (hsome : digits ≠ [])
    (hdigits : ∀ c ∈ digits, c.isDigit = true) (rest more : List Char) :
    digits ++ '\x7d' :: rest ≠ '\x7b' :: more := by
  obtain ⟨c, digits, rfl⟩ := List.exists_cons_of_ne_nil hsome
  intro heq
  obtain ⟨rfl, -⟩ := List.cons.inj heq
  exact absurd (hdigits '\x7b' List.mem_cons_self) (by decide)

/-! A brace that stands alone -/

theorem fill_open {text : List Char} (hopen : ∀ more, text ≠ '\x7b' :: more) :
    fill template all ('\x7b' :: text) = match placeholder? text with
      | none => .error (.invalidFormat template)
      | some (digits, rest) => match placeholderIndex? digits with
        | none => .error (.invalidFormat template)
        | some i => match formatArgument all i with
          | .error e => .error e
          | .ok v => (fill template all rest).map (v.display.toList ++ ·) := by
  have hclose (more : List Char) (heq : '\x7b' = '\x7d') : text ≠ '\x7d' :: more :=
    absurd heq (by decide)
  rw [fill.eq_4 _ _ _ _ (fun more _ => hopen more) hclose, if_pos rfl]
  split
  next hnone => rw [hnone]
  next digits rest hsome =>
    rewrite [hsome]
    rfl

theorem fill_index {digits : List Char} (hsome : digits ≠ [])
    (hdigits : ∀ c ∈ digits, c.isDigit = true) (hfits : Decimal.ofDigits digits < wordCount)
    (rest : List Char) :
    fill template all ('\x7b' :: digits ++ '\x7d' :: rest) =
      match formatArgument all (Decimal.ofDigits digits) with
      | .error e => .error e
      | .ok v => (fill template all rest).map (v.display.toList ++ ·) := by
  rw [List.cons_append, fill_open (digits_ne_open hsome hdigits rest),
    placeholder?_digits hdigits rest]
  simp only [placeholderIndex?_of_fits hsome hfits]

/-! A first part of a template -/

theorem fill_nil : fill template all [] = .ok [] := by rw [fill]

theorem map_eq_ok {r : Except CallError (List Char)} {f : List Char → List Char}
    {out : List Char} (h : r.map f = .ok out) : ∃ text, r = .ok text ∧ f text = out := by
  cases r with
  | error e => cases h
  | ok text => exact ⟨text, rfl, Except.ok.inj h⟩

theorem fill_append {before out : List Char} (h : fill template all before = .ok out)
    (rest : List Char) :
    fill template all (before ++ rest) = (fill template all rest).map (out ++ ·) := by
  have hbrace {c : Char} (hc : isBrace c = true) {text : List Char}
      (ih : ∀ {out}, fill template all text = .ok out →
        fill template all (text ++ rest) = (fill template all rest).map (out ++ ·))
      {out : List Char} (h : fill template all (c :: c :: text) = .ok out) :
      fill template all (c :: c :: text ++ rest) = (fill template all rest).map (out ++ ·) := by
    rw [fill_brace hc] at h
    obtain ⟨tail, htext, rfl⟩ := map_eq_ok h
    rw [List.cons_append, List.cons_append, fill_brace hc, ih htext]
    exact map_append _ [c] tail
  induction before using fill.induct all generalizing out with
  | case1 =>
    obtain rfl := Except.ok.inj (fill_nil.symm.trans h)
    exact (map_nil_append _).symm
  | case2 text ih => exact hbrace (by decide) ih h
  | case3 text ih => exact hbrace (by decide) ih h
  | case4 text hnone hopen _ =>
    rw [fill_open fun more => hopen more rfl, hnone] at h
    cases h
  | case5 text digits more hplace hnone hopen _ =>
    simp [fill_open fun more => hopen more rfl, hplace, hnone] at h
  | case6 text digits more hplace index hindex e herror hopen _ =>
    simp [fill_open fun more => hopen more rfl, hplace, hindex, herror] at h
  | case7 text digits more hplace index hindex value hvalue hopen _ ih =>
    rw [fill_placeholder (fun more => hopen more rfl) hplace hindex hvalue] at h
    obtain ⟨tail, hmore, rfl⟩ := map_eq_ok h
    obtain ⟨rfl, hdigits⟩ := placeholder?_eq_some hplace
    have hsome := ne_nil_of_placeholderIndex? hindex
    have hsplit : '\x7b' :: (digits ++ '\x7d' :: more) ++ rest =
        '\x7b' :: (digits ++ '\x7d' :: (more ++ rest)) := by simp
    rw [hsplit, fill_placeholder (digits_ne_open hsome hdigits _) (placeholder?_digits hdigits _)
      hindex hvalue, ih hmore]
    exact map_append _ _ tail
  | case8 text hopen hclose _ =>
    rw [fill.eq_4 _ _ _ _ hopen hclose, if_neg (by decide), if_pos rfl] at h
    cases h
  | case9 c text hopen hclose hneOpen hneClose ih =>
    have hc : isBrace c = false := by simp [isBrace, hneOpen, hneClose]
    rw [fill_plain hc] at h
    obtain ⟨tail, htext, rfl⟩ := map_eq_ok h
    rw [List.cons_append, fill_plain hc, ih htext]
    exact map_append _ [c] tail

/-! The whole template -/

section
variable {first : Json} {args : List Json}

theorem formatArgument_of_lt {index : Nat} (h : index + 1 < wordCount) :
    formatArgument (first :: args) index = match args[index]? with
      | none => .error (.missingFormatArgument index)
      | some v => .ok v := by
  rw [formatArgument, if_pos h, List.getElem?_cons_succ]
  cases args[index]? <;> rfl

theorem formatArgument_of_last {index : Nat} (h : index + 1 = wordCount) :
    formatArgument (first :: args) index = .error .overflow := by
  rw [formatArgument, if_neg (by omega)]

theorem format_index {before out digits rest : List Char}
    (htemplate : first.display.toList = before ++ '\x7b' :: digits ++ '\x7d' :: rest)
    (hbefore : fill first.display (first :: args) before = .ok out) (hsome : digits ≠ [])
    (hdigits : ∀ c ∈ digits, c.isDigit = true) (hfits : Decimal.ofDigits digits < wordCount) :
    format (first :: args) = match formatArgument (first :: args) (Decimal.ofDigits digits) with
      | .error e => .error e
      | .ok v => (fill first.display (first :: args) rest).map fun text =>
          .known (.str (String.ofList (out ++ v.display.toList ++ text))) := by
  have hsplit : before ++ '\x7b' :: digits ++ '\x7d' :: rest =
      before ++ ('\x7b' :: digits ++ '\x7d' :: rest) := List.append_assoc _ _ _
  simp only [format, List.head?_cons, Option.getD_some]
  rw [htemplate, hsplit, fill_append hbefore, fill_index hsome hdigits hfits]
  cases formatArgument (first :: args) (Decimal.ofDigits digits) with
  | error e => rfl
  | ok v =>
    cases fill first.display (first :: args) rest with
    | error e => rfl
    | ok text => simp only [Except.map, List.append_assoc]

/-- Wherever a first part of the template can be filled in, the digits of a word in braces behind it
stand for the argument with this index, and are reported if there is none. The one exception is
the largest word: the place of its argument is past all words, and the program ends. -/
theorem format_placeholder {before out digits rest : List Char}
    (htemplate : first.display.toList = before ++ '\x7b' :: digits ++ '\x7d' :: rest)
    (hbefore : fill first.display (first :: args) before = .ok out) (hsome : digits ≠ [])
    (hdigits : ∀ c ∈ digits, c.isDigit = true) (hfits : Decimal.ofDigits digits < wordCount) :
    (Decimal.ofDigits digits + 1 < wordCount → format (first :: args) =
      match args[Decimal.ofDigits digits]? with
      | none => .error (.missingFormatArgument (Decimal.ofDigits digits))
      | some v => (fill first.display (first :: args) rest).map fun text =>
          .known (.str (String.ofList (out ++ v.display.toList ++ text)))) ∧
    (Decimal.ofDigits digits + 1 = wordCount → format (first :: args) = .error .overflow) := by
  have hformat := format_index htemplate hbefore hsome hdigits hfits
  constructor
  · intro hlt
    rw [hformat, formatArgument_of_lt hlt]
    cases args[Decimal.ofDigits digits]? <;> rfl
  · intro hlast
    rw [hformat, formatArgument_of_last hlast]

def large : Json := .str "\x7b\x7b\x7b018446744073709551614\x7d"

theorem format_placeholder_large :
    large.display.toList =
      ['\x7b', '\x7b'] ++ '\x7b' :: "018446744073709551614".toList ++ ['\x7d'] ∧
    fill large.display [large, .str "x"] ['\x7b', '\x7b'] = .ok ['\x7b'] ∧
    Decimal.ofDigits "018446744073709551614".toList + 1 < wordCount ∧
    format [large, .str "x"] = .error (.missingFormatArgument 18446744073709551614) := by
  have htemplate : large.display.toList =
      ['\x7b', '\x7b'] ++ '\x7b' :: "018446744073709551614".toList ++ ['\x7d'] := by decide
  have hbefore : fill large.display [large, .str "x"] ['\x7b', '\x7b'] = .ok ['\x7b'] := by
    simp [fill, Except.map]
  have hlt : Decimal.ofDigits "018446744073709551614".toList + 1 < wordCount := by decide
  have hdigits : ∀ c ∈ "018446744073709551614".toList, c.isDigit = true :=
    List.all_eq_true.mp (by decide)
  have hformat := (format_placeholder htemplate hbefore (by decide) hdigits
    (Nat.lt_of_succ_lt hlt)).1 hlt
  exact ⟨htemplate, hbefore, hlt, hformat⟩

def largest : Json := .str "\x7b18446744073709551615\x7d"

/-- A template alone has no arguments, and yet the largest word is not reported as missing one. -/
theorem largest_word_overflows :
    largest.display.toList = '\x7b' :: "18446744073709551615".toList ++ ['\x7d'] ∧
    Decimal.ofDigits "18446744073709551615".toList < wordCount ∧
    format [largest] = .error .overflow ∧
    format [largest] ≠ .error (.missingFormatArgument 18446744073709551615) := by
  have htemplate : largest.display.toList =
      [] ++ '\x7b' :: "18446744073709551615".toList ++ ['\x7d'] := by decide
  have hdigits : ∀ c ∈ "18446744073709551615".toList, c.isDigit = true :=
    List.all_eq_true.mp (by decide)
  have hformat := @format_index largest [] _ _ _ _ htemplate fill_nil (by decide) hdigits
    (by decide)
  rw [formatArgument_of_last (by decide)] at hformat
  refine ⟨htemplate, by decide, hformat, ?_⟩
  rw [hformat]
  exact nofun

end
end WorkflowLint.Expr.Builtin
