import WorkflowLint.Expr.Coercion
import WorkflowLint.Proofs.Expr.Word

/-! Texts that denote numbers: blank ones, the infinite numbers, hexadecimal digits behind `0x` and
decimal literals. A text is read as a number if it is one of these, or if hexadecimal digits in it
have a sign of their own behind the `0x`. -/
namespace WorkflowLint

/-! Decimal literals -/

namespace Decimal

def IsDigits (text : List Char) : Prop := text ≠ [] ∧ ∀ c ∈ text, c.isDigit = true

def IsSign (text : List Char) : Prop := text = [] ∨ text = ['+'] ∨ text = ['-']

inductive IsExponent : List Char → Prop
  | absent : IsExponent []
  | present {e : Char} {sign digits : List Char} : e = 'e' ∨ e = 'E' → IsSign sign →
      IsDigits digits → IsExponent (e :: (sign ++ digits))

inductive IsMantissa : List Char → Prop
  | whole {digits : List Char} : IsDigits digits → IsMantissa digits
  | pointed {before after : List Char} : IsDigits before → (∀ c ∈ after, c.isDigit = true) →
      IsMantissa (before ++ '.' :: after)
  | fraction {after : List Char} : IsDigits after → IsMantissa ('.' :: after)

inductive IsLiteral : List Char → Prop
  | mk {sign mantissa exponent : List Char} : IsSign sign → IsMantissa mantissa →
      IsExponent exponent → IsLiteral (sign ++ (mantissa ++ exponent))

/-! Signs -/

theorem exists_sign (text : List Char) :
    ∃ sign, IsSign sign ∧ text = sign ++ (takeSign text).2 := by
  unfold takeSign
  split
  next rest => exact ⟨['-'], .inr (.inr rfl), rfl⟩
  next rest => exact ⟨['+'], .inr (.inl rfl), rfl⟩
  next => exact ⟨[], .inl rfl, rfl⟩

theorem takeSign_append {sign rest : List Char} (h : IsSign sign)
    (hrest : ∀ c ∈ rest.head?, c ≠ '+' ∧ c ≠ '-') : (takeSign (sign ++ rest)).2 = rest := by
  obtain rfl | rfl | rfl := h
  · rw [List.nil_append]
    unfold takeSign
    split
    next => exact absurd rfl (hrest '-' rfl).2
    next => exact absurd rfl (hrest '+' rfl).1
    next => rfl
  · rfl
  · rfl

/-! Digits -/

theorem takeWhile_digits {digits rest : List Char} (h : ∀ c ∈ digits, c.isDigit = true)
    (hrest : ∀ c ∈ rest.head?, c.isDigit = false) :
    (digits ++ rest).takeWhile Char.isDigit = digits ∧
      (digits ++ rest).dropWhile Char.isDigit = rest := by
  rw [List.takeWhile_append_of_pos h, List.dropWhile_append_of_pos h]
  cases rest with
  | nil => simp
  | cons c rest => simp [hrest c rfl]

theorem exists_digits (text : List Char) : ∃ digits rest, text = digits ++ rest ∧
    (∀ c ∈ digits, c.isDigit = true) ∧ (∀ c ∈ rest.head?, c.isDigit = false) := by
  refine ⟨text.takeWhile Char.isDigit, text.dropWhile Char.isDigit,
    List.takeWhile_append_dropWhile.symm, List.all_eq_true.mp List.all_takeWhile, ?_⟩
  intro c hc
  have hnot := List.head?_dropWhile_not Char.isDigit text
  rw [Option.mem_def.mp hc] at hnot
  exact hnot

theorem IsDigits.head?_ne {digits rest : List Char} (h : IsDigits digits) {c : Char}
    (hc : c ∈ (digits ++ rest).head?) : c ≠ '+' ∧ c ≠ '-' := by
  obtain ⟨hsome, hdigits⟩ := h
  obtain ⟨d, digits, rfl⟩ := List.exists_cons_of_ne_nil hsome
  obtain rfl : d = c := by simpa using hc
  have hd := hdigits d List.mem_cons_self
  constructor <;> rintro rfl <;> cases hd

theorem readInt?_isSome_iff {text : List Char} : (readInt? text).isSome = true ↔
    ∃ sign digits, text = sign ++ digits ∧ IsSign sign ∧ IsDigits digits := by
  have hread : (readInt? text).isSome = true ↔ IsDigits (takeSign text).2 := by
    simp only [readInt?]
    split
    next h =>
      refine iff_of_false (by simp) fun hdigits => ?_
      have hall : (takeSign text).2.all Char.isDigit = true := List.all_eq_true.mpr hdigits.2
      simp [hdigits.1, hall] at h
    next h => simpa [IsDigits] using h
  rw [hread]
  constructor
  · intro h
    obtain ⟨sign, hsign, htext⟩ := exists_sign text
    exact ⟨sign, _, htext, hsign, h⟩
  · rintro ⟨sign, digits, rfl, hsign, hdigits⟩
    have hhead (c : Char) (hc : c ∈ digits.head?) : c ≠ '+' ∧ c ≠ '-' :=
      @IsDigits.head?_ne digits [] hdigits c (by simpa using hc)
    rwa [takeSign_append hsign hhead]

theorem readExponent?_isSome_iff {text : List Char} :
    (readExponent? text).isSome = true ↔ IsExponent text := by
  constructor
  · intro h
    cases text with
    | nil => exact .absent
    | cons e rest =>
      simp only [readExponent?] at h
      split at h
      next he =>
        obtain ⟨sign, digits, rfl, hsign, hdigits⟩ := readInt?_isSome_iff.mp h
        exact .present he hsign hdigits
      next => cases h
  · intro h
    cases h with
    | absent => rfl
    | present he hsign hdigits =>
      simp only [readExponent?, if_pos he]
      exact readInt?_isSome_iff.mpr ⟨_, _, rfl, hsign, hdigits⟩

theorem IsExponent.head? {text : List Char} (h : IsExponent text) {c : Char}
    (hc : c ∈ text.head?) : c = 'e' ∨ c = 'E' := by
  cases h with
  | absent => cases hc
  | present he => exact Option.some.inj hc ▸ he

/-! Whole literals -/

section
variable {text before after tail : List Char}

theorem read?_isSome_pointed (htext : (takeSign text).2 = before ++ '.' :: (after ++ tail))
    (hbefore : ∀ c ∈ before, c.isDigit = true) (hafter : ∀ c ∈ after, c.isDigit = true)
    (htail : ∀ c ∈ tail.head?, c.isDigit = false) : (read? text).isSome = true ↔
      (before ≠ [] ∨ after ≠ []) ∧ (readExponent? tail).isSome = true := by
  obtain ⟨htake, hdrop⟩ := @takeWhile_digits before ('.' :: (after ++ tail)) hbefore (by simp)
  obtain ⟨htake', hdrop'⟩ := takeWhile_digits hafter htail
  simp only [read?, htext, htake, hdrop, htake', hdrop']
  split
  next h => simp [List.isEmpty_iff.mp (Bool.and_eq_true_iff.mp h).1,
      List.isEmpty_iff.mp (Bool.and_eq_true_iff.mp h).2]
  next h =>
    have hsome : before ≠ [] ∨ after ≠ [] := by
      rw [Bool.and_eq_true, List.isEmpty_iff, List.isEmpty_iff] at h
      exact Decidable.not_and_iff_or_not.mp h
    simp [hsome]

theorem read?_isSome_whole (htext : (takeSign text).2 = before ++ tail)
    (hbefore : ∀ c ∈ before, c.isDigit = true)
    (htail : ∀ c ∈ tail.head?, c.isDigit = false ∧ c ≠ '.') : (read? text).isSome = true ↔
      before ≠ [] ∧ (readExponent? tail).isSome = true := by
  obtain ⟨htake, hdrop⟩ := takeWhile_digits hbefore fun c hc => (htail c hc).1
  have hpoint (rest : List Char) : tail ≠ '.' :: rest := by
    rintro rfl
    exact (htail '.' rfl).2 rfl
  simp only [read?, htext, htake, hdrop]
  split
  next h => simp_all
  next h => simp_all

end

theorem IsMantissa.head?_ne {mantissa rest : List Char} (h : IsMantissa mantissa) {c : Char}
    (hc : c ∈ (mantissa ++ rest).head?) : c ≠ '+' ∧ c ≠ '-' := by
  cases h with
  | whole hdigits => exact hdigits.head?_ne hc
  | pointed hbefore _ =>
    rw [List.append_assoc] at hc
    exact hbefore.head?_ne hc
  | fraction hdigits =>
    obtain rfl : '.' = c := by simpa using hc
    decide

theorem isLiteral_of_read? {text : List Char} (h : (read? text).isSome = true) :
    IsLiteral text := by
  obtain ⟨sign, hsign, htext⟩ := exists_sign text
  obtain ⟨before, tail, hsplit, hbefore, htail⟩ := exists_digits (takeSign text).2
  rw [htext, hsplit]
  by_cases hpoint : ∃ rest, tail = '.' :: rest
  · obtain ⟨rest, rfl⟩ := hpoint
    obtain ⟨after, tail, rfl, hafter, htail⟩ := exists_digits rest
    obtain ⟨hsome, hexponent⟩ := (read?_isSome_pointed hsplit hbefore hafter htail).mp h
    have hmantissa : IsMantissa (before ++ '.' :: after) := by
      by_cases hnil : before = []
      · subst hnil
        exact .fraction ⟨hsome.resolve_left (not_not_intro rfl), hafter⟩
      · exact .pointed ⟨hnil, hbefore⟩ hafter
    have hliteral := IsLiteral.mk hsign hmantissa (readExponent?_isSome_iff.mp hexponent)
    simpa using hliteral
  · have hnot (c : Char) (hc : c ∈ tail.head?) : c.isDigit = false ∧ c ≠ '.' := by
      refine ⟨htail c hc, ?_⟩
      rintro rfl
      obtain ⟨rest, hrest⟩ := List.head?_eq_some_iff.mp hc
      exact hpoint ⟨rest, hrest⟩
    obtain ⟨hsome, hexponent⟩ := (read?_isSome_whole hsplit hbefore hnot).mp h
    exact .mk hsign (.whole ⟨hsome, hbefore⟩) (readExponent?_isSome_iff.mp hexponent)

theorem IsLiteral.read?_isSome {text : List Char} (h : IsLiteral text) :
    (read? text).isSome = true := by
  cases h with
  | @mk sign mantissa exponent hsign hmantissa hexponent =>
    have hrest : (takeSign (sign ++ (mantissa ++ exponent))).2 = mantissa ++ exponent :=
      takeSign_append hsign fun c hc => hmantissa.head?_ne hc
    have htail (c : Char) (hc : c ∈ exponent.head?) : c.isDigit = false ∧ c ≠ '.' := by
      obtain rfl | rfl := hexponent.head? hc <;> decide
    have hread := readExponent?_isSome_iff.mpr hexponent
    cases hmantissa with
    | whole hdigits => exact (read?_isSome_whole hrest hdigits.2 htail).mpr ⟨hdigits.1, hread⟩
    | pointed hbefore hafter =>
      rw [List.append_assoc, List.cons_append] at hrest
      rw [List.append_assoc, List.cons_append]
      exact (read?_isSome_pointed hrest hbefore.2 hafter fun c hc => (htail c hc).1).mpr
        ⟨.inl hbefore.1, hread⟩
    | fraction hafter =>
      exact (@read?_isSome_pointed _ [] _ _ hrest (by simp) hafter.2
        fun c hc => (htail c hc).1).mpr ⟨.inr hafter.1, hread⟩

theorem read?_isSome_iff {text : List Char} : (read? text).isSome = true ↔ IsLiteral text :=
  ⟨isLiteral_of_read?, IsLiteral.read?_isSome⟩

/-! The characters of a literal -/

section
open WorkflowLint.Expr (isNumberChar_of_isDigit)
variable {text : List Char} {c : Char}

theorem IsDigits.isNumberChar (h : IsDigits text) (hc : c ∈ text) : isNumberChar c = true :=
  isNumberChar_of_isDigit (h.2 c hc)

theorem IsSign.isNumberChar (h : IsSign text) (hc : c ∈ text) : isNumberChar c = true := by
  obtain rfl | rfl | rfl := h
  · cases hc
  · rw [List.mem_singleton.mp hc]
    rfl
  · rw [List.mem_singleton.mp hc]
    rfl

theorem IsExponent.isNumberChar (h : IsExponent text) (hc : c ∈ text) : isNumberChar c = true := by
  cases h with
  | absent => cases hc
  | present he hsign hdigits =>
    obtain rfl | hc := List.mem_cons.mp hc
    · obtain rfl | rfl := he <;> rfl
    · exact (List.mem_append.mp hc).elim hsign.isNumberChar hdigits.isNumberChar

theorem IsMantissa.isNumberChar (h : IsMantissa text) (hc : c ∈ text) : isNumberChar c = true := by
  cases h with
  | whole hdigits => exact hdigits.isNumberChar hc
  | pointed hbefore hafter =>
    obtain hc | hc := List.mem_append.mp hc
    · exact hbefore.isNumberChar hc
    · obtain rfl | hc := List.mem_cons.mp hc
      · rfl
      · exact isNumberChar_of_isDigit (hafter c hc)
  | fraction hdigits =>
    obtain rfl | hc := List.mem_cons.mp hc
    · rfl
    · exact hdigits.isNumberChar hc

theorem IsLiteral.isNumberChar (h : IsLiteral text) (hc : c ∈ text) : isNumberChar c = true := by
  cases h with
  | mk hsign hmantissa hexponent =>
    obtain hc | hc := List.mem_append.mp hc
    · exact hsign.isNumberChar hc
    · exact (List.mem_append.mp hc).elim hmantissa.isNumberChar hexponent.isNumberChar

end
end Decimal

/-! Hexadecimal digits -/

namespace Text

theorem hexValue?_lt {c : Char} {d : Nat} (h : hexValue? c = some d) : d < 16 := by
  unfold hexValue? at h
  split at h
  next hdigit =>
    obtain rfl := Option.some.inj h
    have hle := (Char.isDigit_iff_toNat.mp hdigit).2
    have hnine : '9'.toNat = 57 := rfl
    have hzero : '0'.toNat = 48 := rfl
    omega
  next =>
    split at h
    next hsmall =>
      obtain rfl := Option.some.inj h
      have hle : c.toNat ≤ 'f'.toNat := UInt32.le_iff_toNat_le.mp hsmall.2
      have hf : 'f'.toNat = 102 := rfl
      have ha : 'a'.toNat = 97 := rfl
      omega
    next =>
      split at h
      next hlarge =>
        obtain rfl := Option.some.inj h
        have hle : c.toNat ≤ 'F'.toNat := UInt32.le_iff_toNat_le.mp hlarge.2
        have hf : 'F'.toNat = 70 := rfl
        have ha : 'A'.toNat = 65 := rfl
        omega
      next => cases h

theorem digitValue?_sixteen (c : Char) : digitValue? 16 c = hexValue? c := by
  unfold digitValue?
  cases h : hexValue? c with
  | none => rfl
  | some d => simp [hexValue?_lt h]

def IsHexDigits (text : List Char) : Prop := text ≠ [] ∧ ∀ c ∈ text, Expr.isHexDigit c = true

def hexNumber (digits : List Char) : Nat :=
  digits.foldl (fun n c => 16 * n + (hexValue? c).getD 0) 0

theorem foldl_hexDigits (digits : List Char) (m n : Nat) :
    digits.foldl (fun n c => n.bind fun n => (digitValue? 16 c).map (16 * n + ·)) (some m) =
        some n ↔
      (∀ c ∈ digits, Expr.isHexDigit c = true) ∧
        digits.foldl (fun n c => 16 * n + (hexValue? c).getD 0) m = n := by
  simp only [digitValue?_sixteen, Expr.isHexDigit]
  induction digits generalizing m with
  | nil => simp
  | cons c digits ih =>
    have hnone : digits.foldl (fun n c => n.bind fun n =>
        (hexValue? c).map (16 * n + ·)) none = none := by
      clear ih
      induction digits with
      | nil => rfl
      | cons c digits ih => exact ih
    simp only [List.foldl_cons, Option.bind_some, List.forall_mem_cons]
    cases hexValue? c with
    | none => simp [hnone]
    | some d => simpa using ih (16 * m + d)

theorem readDigits?_eq_some_iff {digits : List Char} {n : Nat} :
    readDigits? 16 digits = some n ↔ IsHexDigits digits ∧ hexNumber digits = n := by
  unfold readDigits? IsHexDigits
  split
  next h => simp [List.isEmpty_iff.mp h]
  next h =>
    have hsome : digits ≠ [] := fun hnil => h (List.isEmpty_iff.mpr hnil)
    simp only [foldl_hexDigits, hexNumber, hsome, ne_eq, not_false_eq_true, true_and]

/-! Numerals -/

def IsHexMark (c : Char) : Prop := c = 'x' ∨ c = 'X'

def IsWord (text : List Char) : Prop := IsHexDigits text ∧ hexNumber text < twoTo 63

/-- Such digits behind a sign. The smallest of the numbers has no counterpart among the others. -/
inductive IsSignedWord : List Char → Prop
  | plus {digits : List Char} : IsWord digits → IsSignedWord ('+' :: digits)
  | minus {digits : List Char} : IsHexDigits digits → hexNumber digits ≤ twoTo 63 →
      IsSignedWord ('-' :: digits)

inductive IsNumeral : List Char → Prop
  | blank : IsNumeral []
  | infinite {text : String} : text ∈ ["Infinity", "+Infinity", "-Infinity"] →
      IsNumeral text.toList
  | hexadecimal {mark : Char} {digits : List Char} : IsHexMark mark → IsWord digits →
      IsNumeral ('0' :: mark :: digits)
  | decimal {text : List Char} : Decimal.IsLiteral text → IsNumeral text

/-- A sign between the mark and the digits, where no numeral has one. -/
inductive IsSignedHex : List Char → Prop
  | mk {mark : Char} {word : List Char} : IsHexMark mark → IsSignedWord word →
      IsSignedHex ('0' :: mark :: word)

theorem IsHexMark.not_isNumberChar {c : Char} (h : IsHexMark c) : Decimal.isNumberChar c = false := by
  obtain rfl | rfl := h <;> decide

theorem isNumeral_hex_iff {mark : Char} (hmark : IsHexMark mark) {text : List Char} :
    IsNumeral ('0' :: mark :: text) ↔ IsWord text := by
  constructor
  · generalize hwhole : '0' :: mark :: text = whole
    intro h
    cases h with
    | blank => cases hwhole
    | infinite hmem =>
      have hhead := congrArg List.head? hwhole
      simp only [List.mem_cons, List.not_mem_nil, or_false] at hmem
      obtain rfl | rfl | rfl := hmem <;> cases hhead
    | hexadecimal _ hword =>
      cases hwhole
      exact hword
    | decimal hliteral =>
      subst hwhole
      have hchar := hliteral.isNumberChar (List.mem_cons_of_mem _ List.mem_cons_self)
      rw [hmark.not_isNumberChar] at hchar
      cases hchar
  · exact .hexadecimal hmark

theorem isSignedHex_hex_iff {mark : Char} (hmark : IsHexMark mark) {text : List Char} :
    IsSignedHex ('0' :: mark :: text) ↔ IsSignedWord text := by
  constructor
  · intro h
    cases h with
    | mk _ hword => exact hword
  · exact .mk hmark

theorem IsSignedWord.not_isWord {text : List Char} (h : IsSignedWord text) : ¬IsWord text := by
  rintro ⟨⟨-, hdigits⟩, -⟩
  cases h <;> cases hdigits _ List.mem_cons_self

theorem IsSignedHex.not_isNumeral {text : List Char} (h : IsSignedHex text) : ¬IsNumeral text := by
  cases h with
  | mk hmark hword =>
    rw [isNumeral_hex_iff hmark]
    exact hword.not_isWord

theorem isNumeral_iff_isLiteral {text : List Char} (hblank : text ≠ [])
    (hinfinite : ∀ name ∈ ["Infinity", "+Infinity", "-Infinity"], text ≠ name.toList)
    (hhex : ¬∃ mark rest, IsHexMark mark ∧ text = '0' :: mark :: rest) :
    IsNumeral text ↔ Decimal.IsLiteral text := by
  constructor
  · intro h
    cases h with
    | blank => exact absurd rfl hblank
    | infinite hmem => exact absurd rfl (hinfinite _ hmem)
    | hexadecimal hmark => exact absurd ⟨_, _, hmark, rfl⟩ hhex
    | decimal hliteral => exact hliteral
  · exact .decimal

end Text

/-! Reading -/

namespace Binary64
open Text

theorem isNaN_wordRange (n : Int) :
    (if -(twoTo 63 : Int) ≤ n ∧ n < twoTo 63 then ofInt n else .nan).isNaN = false ↔
      -(twoTo 63 : Int) ≤ n ∧ n < twoTo 63 := by
  split
  next h => exact iff_of_true (isNaN_ofInt n) h
  next h => exact iff_of_false (by simp [isNaN]) h

theorem isNaN_readHex_of_takeSign {text digits : List Char} {negative : Bool}
    (h : Decimal.takeSign text = (negative, digits)) : (readHex text).isNaN = false ↔
      IsHexDigits digits ∧
        if negative then hexNumber digits ≤ twoTo 63 else hexNumber digits < twoTo 63 := by
  have hpos := twoTo_pos 63
  simp only [readHex, h]
  cases hread : readDigits? 16 digits with
  | none =>
    refine iff_of_false (by simp [isNaN]) fun hdigits => ?_
    rw [readDigits?_eq_some_iff.mpr ⟨hdigits.1, rfl⟩] at hread
    cases hread
  | some n =>
    obtain ⟨hdigits, rfl⟩ := readDigits?_eq_some_iff.mp hread
    simp only [isNaN_wordRange, hdigits, true_and]
    cases negative <;> simp only [if_true, Bool.false_eq_true, if_false] <;> omega

theorem isNaN_readHex (text : List Char) :
    (readHex text).isNaN = false ↔ IsWord text ∨ IsSignedWord text := by
  have hsigned (sign : Char) (hsign : Expr.isHexDigit sign = false) (digits : List Char) :
      ¬IsWord (sign :: digits) := by
    intro h
    have hdigit := h.1.2 sign List.mem_cons_self
    rw [hsign] at hdigit
    cases hdigit
  cases htake : Decimal.takeSign text with
  | mk negative digits =>
    rw [isNaN_readHex_of_takeSign htake]
    unfold Decimal.takeSign at htake
    split at htake
    next rest =>
      cases htake
      simp only [if_true, hsigned '-' (by decide), false_or]
      constructor
      · exact fun h => .minus h.1 h.2
      · rintro (_ | ⟨hdigits, hle⟩)
        exact ⟨hdigits, hle⟩
    next rest =>
      cases htake
      simp only [Bool.false_eq_true, if_false, hsigned '+' (by decide), false_or]
      constructor
      · exact .plus
      · rintro (hword | _)
        exact hword
    next hminus hplus =>
      cases htake
      have hunsigned : ¬IsSignedWord text := by
        rintro (_ | _)
        · exact hplus _ rfl
        · exact hminus _ rfl
      simp only [Bool.false_eq_true, if_false, hunsigned, or_false, IsWord]

theorem isNaN_ofText (text : List Char) :
    (ofText text).isNaN = false ↔ IsNumeral (trim text) ∨ IsSignedHex (trim text) := by
  unfold ofText
  generalize trim text = text
  dsimp only
  split
  next h =>
    obtain rfl := List.isEmpty_iff.mp h
    exact iff_of_true rfl (.inl .blank)
  next hblank =>
    split
    next h =>
      refine iff_of_true rfl (.inl ?_)
      obtain rfl | rfl := h <;> exact .infinite (by decide)
    next hplus =>
      split
      next h =>
        subst h
        exact iff_of_true rfl (.inl (.infinite (by decide)))
      next hminus =>
        by_cases hhex : ∃ mark rest, IsHexMark mark ∧ text = '0' :: mark :: rest
        · obtain ⟨mark, rest, hmark, rfl⟩ := hhex
          rw [isNumeral_hex_iff hmark, isSignedHex_hex_iff hmark, ← isNaN_readHex]
          obtain rfl | rfl := hmark <;> rfl
        · have hsigned : ¬IsSignedHex text := by
            rintro ⟨hmark, -⟩
            exact hhex ⟨_, _, hmark, rfl⟩
          have hnumeral : IsNumeral text ↔ Decimal.IsLiteral text := by
            refine isNumeral_iff_isLiteral (fun h => hblank (List.isEmpty_iff.mpr h)) ?_ hhex
            simp only [List.forall_mem_cons, ← and_assoc]
            exact ⟨⟨not_or.mp hplus, hminus⟩, List.forall_mem_nil _⟩
          rw [hnumeral, ← Decimal.read?_isSome_iff, or_iff_left hsigned]
          split
          next => exact absurd ⟨_, _, .inl rfl, rfl⟩ hhex
          next => exact absurd ⟨_, _, .inr rfl, rfl⟩ hhex
          next =>
            split
            next =>
              split
              next d hd => simp [hd, Decimal.toBinary64, isNaN_ofDecimal]
              next hd => simp [hd, isNaN]
            next hall =>
              refine iff_of_false (by simp [isNaN]) fun hread => hall (List.all_eq_true.mpr ?_)
              exact fun c => (Decimal.read?_isSome_iff.mp hread).isNumberChar

end Binary64

namespace Json
open Text

/-- A text is a number if it is a numeral, or if its hexadecimal digits have a sign of their own,
which a numeral does not have. -/
theorem isNaN_toNumber_str (s : String) :
    ((str s).toNumber.isNaN = false ↔
      IsNumeral (trim s.toList) ∨ IsSignedHex (trim s.toList)) ∧
    (IsSignedHex (trim s.toList) → ¬IsNumeral (trim s.toList)) :=
  ⟨Binary64.isNaN_ofText s.toList, IsSignedHex.not_isNumeral⟩

theorem signed_hexadecimal_is_number :
    (str "0x+1").toNumber.isNaN = false ∧ ¬IsNumeral (trim "0x+1".toList) := by
  have htrim : trim "0x+1".toList = '0' :: 'x' :: '+' :: ['1'] := by decide +kernel
  have hdigits : IsHexDigits ['1'] := ⟨by decide, List.all_eq_true.mp (by decide)⟩
  have hword : IsSignedWord ['+', '1'] := .plus ⟨hdigits, by decide⟩
  have hsigned : IsSignedHex (trim "0x+1".toList) := htrim ▸ .mk (.inl rfl) hword
  rw [toNumber, Binary64.isNaN_ofText]
  exact ⟨.inr hsigned, hsigned.not_isNumeral⟩

end Json
end WorkflowLint
