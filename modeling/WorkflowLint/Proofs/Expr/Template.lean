import WorkflowLint.Expr.Function

/-! Templates that are put together from pieces. Filling one in gives each piece what it stands for,
whatever pieces stand next to it. -/
namespace WorkflowLint.Expr.Builtin

inductive Piece (count : Nat) where
  | text (chars : List Char)
  | argument (index : Fin count)

def isBrace (c : Char) : Bool := c = '\x7b' || c = '\x7d'

def doubleBraces (text : List Char) : List Char :=
  text.flatMap fun c => if isBrace c then [c, c] else [c]

namespace Piece

def written {count : Nat} : Piece count → List Char
  | .text chars => doubleBraces chars
  | .argument i => '\x7b' :: Nat.toDigits 10 i ++ ['\x7d']

def filled (args : List Json) : Piece args.length → List Char
  | .text chars => chars
  | .argument i => (args.get i).display.toList

end Piece

section
variable {template : String} {all : List Json}

/-! Text -/

theorem fill_brace {c : Char} (h : isBrace c = true) (rest : List Char) :
    fill template all (c :: c :: rest) = (fill template all rest).map (c :: ·) := by
  simp only [isBrace, Bool.or_eq_true, decide_eq_true_eq] at h
  obtain rfl | rfl := h
  · rw [fill]
  · rw [fill]

theorem fill_plain {c : Char} (h : isBrace c = false) (rest : List Char) :
    fill template all (c :: rest) = (fill template all rest).map (c :: ·) := by
  simp only [isBrace, Bool.or_eq_false_iff, decide_eq_false_iff_not] at h
  obtain ⟨hopen, hclose⟩ := h
  have hnotOpen (more : List Char) (heq : c = '\x7b') : rest ≠ '\x7b' :: more := absurd heq hopen
  have hnotClose (more : List Char) (heq : c = '\x7d') : rest ≠ '\x7d' :: more :=
    absurd heq hclose
  rw [fill.eq_4 _ _ _ _ hnotOpen hnotClose, if_neg hopen, if_neg hclose]

theorem map_nil_append (r : Except CallError (List Char)) : r.map ([] ++ ·) = r := by
  cases r <;> rfl

theorem map_append (r : Except CallError (List Char)) (a b : List Char) :
    (r.map (b ++ ·)).map (a ++ ·) = r.map (a ++ b ++ ·) := by
  cases r with
  | error e => rfl
  | ok text => exact congrArg Except.ok (List.append_assoc a b text).symm

theorem fill_text (chars rest : List Char) :
    fill template all (doubleBraces chars ++ rest) =
      (fill template all rest).map (chars ++ ·) := by
  induction chars with
  | nil => exact (map_nil_append _).symm
  | cons c chars ih =>
    have hsplit : doubleBraces (c :: chars) ++ rest =
        (if isBrace c then [c, c] else [c]) ++ (doubleBraces chars ++ rest) := by
      simp only [doubleBraces, List.flatMap_cons, List.append_assoc]
    have hone : fill template all (doubleBraces (c :: chars) ++ rest) =
        (fill template all (doubleBraces chars ++ rest)).map ([c] ++ ·) := by
      rw [hsplit]
      split
      next hc => exact fill_brace hc _
      next hc => exact fill_plain (Bool.eq_false_iff.mpr hc) _
    rw [hone, ih]
    exact map_append _ [c] chars

/-! Arguments -/

theorem placeholder?_digits {digits : List Char} (h : ∀ c ∈ digits, c.isDigit = true)
    (rest : List Char) : placeholder? (digits ++ '\x7d' :: rest) = some (digits, rest) := by
  induction digits with
  | nil => rfl
  | cons c digits ih =>
    obtain ⟨hc, hdigits⟩ := List.forall_mem_cons.mp h
    have hclose : c ≠ '\x7d' := by
      rintro rfl
      cases hc
    rw [List.cons_append, placeholder?, if_neg hclose, if_pos hc, ih hdigits]
    rfl

theorem placeholderIndex?_toDigits {n : Nat} (h : n < wordCount) :
    placeholderIndex? (Nat.toDigits 10 n) = some n := by
  have hvalue : Decimal.ofDigits (Nat.toDigits 10 n) = n :=
    Nat.ofDigitChars_eq_foldl.symm.trans Nat.ofDigitChars_ten_toDigits
  have hfits : ¬((Nat.toDigits 10 n).isEmpty = true ∨ wordCount ≤ n) := by
    simp [Nat.toDigits_ne_nil, h]
  simp only [placeholderIndex?, hvalue, if_neg hfits]

theorem fill_placeholder {text digits rest : List Char} {index : Nat} {value : Json}
    (hopen : ∀ more, text ≠ '\x7b' :: more) (hdigits : placeholder? text = some (digits, rest))
    (hindex : placeholderIndex? digits = some index)
    (hvalue : formatArgument all index = .ok value) :
    fill template all ('\x7b' :: text) =
      (fill template all rest).map (value.display.toList ++ ·) := by
  have hclose (more : List Char) (heq : '\x7b' = '\x7d') : text ≠ '\x7d' :: more :=
    absurd heq (by decide)
  rw [fill.eq_4 _ _ _ _ (fun more _ => hopen more) hclose, if_pos rfl]
  split
  next hnone =>
    rw [hdigits] at hnone
    cases hnone
  next digits rest hsome =>
    rw [hdigits] at hsome
    cases hsome
    simp only [hindex, hvalue]

theorem fill_argument {index : Nat} {value : Json} (h : index + 1 < wordCount)
    (hvalue : all[index + 1]? = some value) (rest : List Char) :
    fill template all ('\x7b' :: Nat.toDigits 10 index ++ '\x7d' :: rest) =
      (fill template all rest).map (value.display.toList ++ ·) := by
  have hdigits (c : Char) (hc : c ∈ Nat.toDigits 10 index) : c.isDigit = true :=
    Nat.isDigit_of_mem_toDigits (by decide) (by decide) hc
  -- there is a digit, so that the brace before it is not one of two
  have hopen (more : List Char) : Nat.toDigits 10 index ++ '\x7d' :: rest ≠ '\x7b' :: more := by
    obtain ⟨c, digits, hcons⟩ := List.exists_cons_of_ne_nil (@Nat.toDigits_ne_nil index 10)
    rw [hcons]
    intro heq
    obtain ⟨rfl, -⟩ := List.cons.inj heq
    exact absurd (hdigits '\x7b' (hcons ▸ List.mem_cons_self)) (by decide)
  have hargument : formatArgument all index = .ok value := by
    rw [formatArgument, if_pos h, hvalue]
  exact fill_placeholder hopen (placeholder?_digits hdigits rest)
    (placeholderIndex?_toDigits (Nat.lt_of_succ_lt h)) hargument

end

/-! Pieces -/

section
variable {template : String} {args : List Json}

theorem fill_piece (h : args.length < wordCount) (first : Json) (p : Piece args.length)
    (rest : List Char) : fill template (first :: args) (p.written ++ rest) =
      (fill template (first :: args) rest).map (p.filled args ++ ·) := by
  cases p with
  | text chars => exact fill_text chars rest
  | argument i =>
    have hvalue : (first :: args)[i.val + 1]? = some (args.get i) := by simp
    have hindex : i.val + 1 < wordCount := Nat.lt_of_le_of_lt i.isLt h
    have hfill := @fill_argument template _ _ _ hindex hvalue rest
    simpa [Piece.written, Piece.filled] using hfill

theorem fill_pieces (h : args.length < wordCount) (first : Json)
    (pieces : List (Piece args.length)) :
    fill template (first :: args) (pieces.flatMap Piece.written) =
      .ok (pieces.flatMap (Piece.filled args)) := by
  induction pieces with
  | nil => rw [List.flatMap_nil, List.flatMap_nil, fill]
  | cons p pieces ih =>
    rw [List.flatMap_cons, List.flatMap_cons, fill_piece h, ih]
    rfl

/-- A template that is put together from text, with each brace of it written twice, and from the
decimal indexes of arguments in braces is filled in with the text as it was and the arguments as
they are displayed. An index is a word, and no list is so long that words cannot count it. -/
theorem format_pieces (h : args.length < wordCount) (pieces : List (Piece args.length)) :
    format (.str (String.ofList (pieces.flatMap Piece.written)) :: args) =
      .ok (.known (.str (String.ofList (pieces.flatMap (Piece.filled args))))) := by
  simp only [format, List.head?_cons, Option.getD_some, Json.display, String.toList_ofList]
  rw [fill_pieces h]
  rfl

end

def braced : List (Piece 2) :=
  [.text ['\x7b'], .argument 1, .text ['\x7d', '\x7d', '\x7b'], .argument 0]

theorem format_pieces_braced :
    [Json.str "a", Json.bool true].length < wordCount ∧
      String.ofList (braced.flatMap Piece.written) =
        "\x7b\x7b\x7b1\x7d\x7d\x7d\x7d\x7d\x7b\x7b\x7b0\x7d" ∧
      format [.str (String.ofList (braced.flatMap Piece.written)), .str "a", .bool true] =
        .ok (.known (.str "\x7btrue\x7d\x7d\x7ba")) := by
  have hlength : [Json.str "a", Json.bool true].length < wordCount := by decide
  have hfilled : braced.flatMap (Piece.filled [.str "a", .bool true]) =
      "\x7btrue\x7d\x7d\x7ba".toList := by decide
  refine ⟨hlength, by decide, ?_⟩
  rw [format_pieces hlength braced, hfilled, String.ofList_toList]

end WorkflowLint.Expr.Builtin
