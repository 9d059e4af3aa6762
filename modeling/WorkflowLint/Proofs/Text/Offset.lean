import WorkflowLint.Text.Bytes
import Mathlib.Order.Monotone.Basic

/-! Bytes counted as characters. The table of a text answers what counting its characters does, so
that it keeps the order of offsets and never leaves the text. -/
namespace WorkflowLint.Text

def IsBoundary (text : List Char) (byte : Nat) : Prop :=
  ∃ before after, text = before ++ after ∧ byte = byteLength before

theorem charOffset_mono (text : List Char) : Monotone (charOffset text) := by
  induction text with
  | nil => exact fun _ _ _ => Nat.le_refl 0
  | cons c cs ih =>
    intro a b hab
    simp only [charOffset]
    split
    · next ha =>
      rw [if_pos (Nat.le_trans ha hab)]
      exact Nat.add_le_add_right (ih (Nat.sub_le_sub_right hab _)) 1
    · exact Nat.zero_le _

theorem charOffset_byteLength (before after : List Char) :
    charOffset (before ++ after) (byteLength before) = before.length := by
  induction before with
  | nil =>
    cases after with
    | nil => rfl
    | cons c cs => simp [charOffset, byteLength, Nat.ne_of_gt c.utf8Size_pos]
  | cons c cs ih =>
    have hle : c.utf8Size ≤ byteLength (c :: cs) := Nat.le_add_right _ _
    have hrest : byteLength (c :: cs) - c.utf8Size = byteLength cs := Nat.add_sub_cancel_left _ _
    rw [List.cons_append, charOffset, if_pos hle, hrest, ih, List.length_cons]

theorem charOffset_within {before after : List Char} {c : Char} {byte : Nat}
    (hle : byteLength before ≤ byte) (hlt : byte < byteLength before + c.utf8Size) :
    charOffset (before ++ c :: after) byte = before.length := by
  induction before generalizing byte with
  | nil =>
    have hc : ¬c.utf8Size ≤ byte := by
      simp only [byteLength] at hlt
      omega
    rw [List.nil_append, charOffset, if_neg hc, List.length_nil]
  | cons d before ih =>
    simp only [byteLength] at hle hlt
    rw [List.cons_append, charOffset, if_pos (by omega), ih (by omega) (by omega),
      List.length_cons]

theorem charOffset_of_le {text : List Char} {byte : Nat} (h : byteLength text ≤ byte) :
    charOffset text byte = text.length := by
  have hend := charOffset_byteLength text []
  rw [List.append_nil] at hend
  have hmono := charOffset_mono text h
  have hle := charOffset_le_length text byte
  omega

theorem charOffset_of_ascii {text : List Char} (h : ∀ c ∈ text, c.toNat < 128) (byte : Nat) :
    charOffset text byte = min byte text.length := by
  induction text generalizing byte with
  | nil => simp [charOffset]
  | cons c cs ih =>
    have hsize : c.utf8Size = 1 := by
      have hc := h c List.mem_cons_self
      rw [Char.utf8Size_eq_one_iff, UInt32.le_iff_toNat_le]
      exact Nat.le_of_lt_succ hc
    have hcs := ih (fun c hc => h c (List.mem_cons_of_mem _ hc)) (byte - 1)
    simp only [charOffset, hsize, hcs, List.length_cons]
    split <;> omega

namespace CharIndex

theorem getElem?_entries (first : Nat) (text : List Char) (byte : Nat) :
    ((entries first text ++ [first + text.length])[byte]?).getD (first + text.length) =
      first + charOffset text byte := by
  induction text generalizing first byte with
  | nil => cases byte <;> simp [entries, charOffset]
  | cons c cs ih =>
    have hlength : first + (c :: cs).length = first + 1 + cs.length := by
      simp only [List.length_cons]
      omega
    rw [hlength, entries, List.append_assoc, charOffset]
    split
    · next hle =>
      rw [List.getElem?_append_right (by simpa using hle), List.length_replicate, ih]
      omega
    · next hlt =>
      rw [List.getElem?_append_left (by simpa using hlt)]
      simp [Nat.lt_of_not_le hlt]

/-- The index that has a table for every text, also for one of single bytes. -/
def tabled (text : List Char) : CharIndex :=
  ⟨some (entries 0 text ++ [text.length]).toArray, text.length⟩

theorem toChar_tabled (text : List Char) (byte : Nat) :
    (tabled text).toChar byte = charOffset text byte := by
  simpa [tabled, toChar] using getElem?_entries 0 text byte

theorem toChar_ofText (text : List Char) (byte : Nat) :
    (ofText text).toChar byte = charOffset text byte := by
  unfold ofText
  split
  · next hall =>
    rw [List.all_eq_true] at hall
    exact (charOffset_of_ascii (fun c hc => by simpa using hall c hc) byte).symm
  · exact toChar_tabled text byte

/-- The index counts the characters before a byte. It gives what counting them again gives wherever
a character begins or the text has ended, and inside of a character the number of that character.
It keeps the order of offsets, never leaves the text, and would answer the same if a text of single
bytes had a table as well. -/
theorem toChar_counts (text : List Char) :
    (∀ byte, IsBoundary text byte ∨ byteLength text < byte →
      (ofText text).toChar byte = charOffset text byte) ∧
    (∀ before after, text = before ++ after →
      (ofText text).toChar (byteLength before) = before.length) ∧
    (∀ byte, byteLength text < byte → (ofText text).toChar byte = text.length) ∧
    (∀ before c after byte, text = before ++ c :: after → byteLength before ≤ byte →
      byte < byteLength before + c.utf8Size → (ofText text).toChar byte = before.length) ∧
    Monotone (ofText text).toChar ∧
    (∀ byte, (ofText text).toChar byte ≤ (ofText text).size) ∧
    (ofText text).size = text.length ∧
    ∀ byte, (ofText text).toChar byte = (tabled text).toChar byte := by
  have hcount : (ofText text).toChar = charOffset text := funext (toChar_ofText text)
  rw [hcount, size_ofText]
  refine ⟨fun _ _ => rfl, ?_, ?_, ?_, charOffset_mono text, charOffset_le_length text, rfl, ?_⟩
  · rintro before after rfl
    exact charOffset_byteLength before after
  · exact fun byte hbyte => charOffset_of_le (Nat.le_of_lt hbyte)
  · rintro before c after byte rfl hle hlt
    exact charOffset_within hle hlt
  · exact fun byte => (toChar_tabled text byte).symm

def accented : List Char := "a: é b".toList

theorem toChar_counts_accented :
    (ofText accented).toChar 3 = 3 ∧ (ofText accented).toChar 4 = 3 ∧
      (ofText accented).toChar 5 = charOffset accented 5 ∧
      (ofText accented).toChar 100 = charOffset accented 100 := by
  obtain ⟨hagree, hbefore, -, hwithin, -⟩ := toChar_counts accented
  have hsplit : accented = ['a', ':', ' '] ++ 'é' :: [' ', 'b'] := by decide
  refine ⟨hbefore ['a', ':', ' '] _ hsplit, ?_, hagree 5 (.inl ?_), hagree 100 (.inr (by decide))⟩
  · exact hwithin _ _ _ 4 hsplit (by decide) (by decide)
  · exact ⟨['a', ':', ' ', 'é'], [' ', 'b'], hsplit, by decide⟩

end CharIndex
end WorkflowLint.Text
