import WorkflowLint.Number.Power
import WorkflowLint.Text.Lines
import Mathlib.Data.List.DropRight
import Mathlib.Data.Prod.Lex

/-! Offsets as lines with columns. A position is what the text before it ends in, and going back
from it gives its offset again; a position that the text does not have stands for the end of its
line, or of the text. -/
namespace WorkflowLint.Text

namespace Position

/-- The position right behind a text: its line feeds, and the characters behind the last one. -/
def behind (text : List Char) : Position :=
  ⟨text.count '\n', (text.rtakeWhile (· ≠ '\n')).length⟩

def key (p : Position) : Nat ×ₗ Nat := toLex (p.line, p.column)

theorem behind_concat (text : List Char) (c : Char) : behind (text ++ [c]) =
    if c = '\n' then ⟨(behind text).line + 1, 0⟩
    else ⟨(behind text).line, (behind text).column + 1⟩ := by
  by_cases hc : c = '\n' <;> simp [behind, hc]

theorem key_behind_le (text more : List Char) :
    (behind text).key ≤ (behind (text ++ more)).key := by
  induction more using List.reverseRecOn with
  | nil => rw [List.append_nil]
  | append_singleton more c ih =>
    refine ih.trans ?_
    rw [← List.append_assoc, behind_concat]
    split
    · exact Prod.Lex.toLex_le_toLex.mpr (.inl (Nat.lt_succ_self _))
    · exact Prod.Lex.toLex_le_toLex.mpr (.inr ⟨rfl, Nat.le_succ _⟩)

theorem behind_append {line : List Char} (h : '\n' ∉ line) (before : List Char) :
    behind (before ++ line) =
      ⟨(behind before).line, (behind before).column + line.length⟩ := by
  induction line using List.reverseRecOn with
  | nil => simp
  | append_singleton line c ih =>
    have hline : '\n' ∉ line := fun hmem => h (List.mem_append_left _ hmem)
    have hc : c ≠ '\n' := by
      rintro rfl
      exact h (by simp)
    rw [← List.append_assoc, behind_concat, if_neg hc, ih hline, List.length_append, Nat.add_assoc]
    rfl

theorem column_behind {text : List Char} (h : ∀ c ∈ text.getLast?, c = '\n') :
    (behind text).column = 0 := by
  obtain rfl | ⟨front, c, rfl⟩ := List.eq_nil_or_concat' text
  · rfl
  · obtain rfl : c = '\n' := h c (by simp)
    rw [behind_concat, if_pos rfl]

theorem line_behind_le (text : List Char) : (behind text).line ≤ text.length :=
  List.count_le_length

theorem column_behind_le (text : List Char) : (behind text).column ≤ text.length :=
  (List.rtakeWhile_suffix _ _).length_le

end Position

namespace LineIndex
open Position

/-! Beginnings of lines -/

theorem startsFrom_append (offset : Nat) (a b : List Char) :
    startsFrom offset (a ++ b) = startsFrom offset a ++ startsFrom (offset + a.length) b := by
  induction a generalizing offset with
  | nil => rfl
  | cons c a ih =>
    have hlength : offset + (c :: a).length = offset + 1 + a.length := by
      rw [List.length_cons]
      omega
    rw [List.cons_append, startsFrom, startsFrom, ih, hlength]
    split <;> rfl

theorem mem_startsFrom {offset start : Nat} {text : List Char}
    (h : start ∈ startsFrom offset text) :
    offset < start ∧ start ≤ offset + text.length := by
  induction text generalizing offset with
  | nil => cases h
  | cons c text ih =>
    have htail (hmem : start ∈ startsFrom (offset + 1) text) :
        offset < start ∧ start ≤ offset + (c :: text).length := by
      obtain ⟨hlt, hle⟩ := ih hmem
      rw [List.length_cons]
      omega
    rw [startsFrom] at h
    split at h
    · obtain rfl | hmem := List.mem_cons.mp h
      · rw [List.length_cons]
        omega
      · exact htail hmem
    · exact htail h

theorem length_startsFrom (offset : Nat) (text : List Char) :
    (startsFrom offset text).length = text.count '\n' := by
  induction text generalizing offset with
  | nil => rfl
  | cons c text ih =>
    by_cases hc : c = '\n' <;> simp [startsFrom, ih, hc]

theorem startsFrom_of_plain {line : List Char} (h : '\n' ∉ line) (offset : Nat) :
    startsFrom offset line = [] := by
  rw [← List.length_eq_zero_iff, length_startsFrom]
  exact List.count_eq_zero_of_not_mem h

theorem length_starts (text : List Char) :
    (0 :: startsFrom 0 text).length = (behind text).line + 1 := by
  rw [List.length_cons, length_startsFrom]
  rfl

theorem exists_lastStart (before : List Char) :
    ∃ start, (0 :: startsFrom 0 before)[(behind before).line]? = some start ∧
      start + (behind before).column = before.length := by
  induction before using List.reverseRecOn with
  | nil => exact ⟨0, rfl, rfl⟩
  | append_singleton before c ih =>
    obtain ⟨start, hstart, hcolumn⟩ := ih
    have hlength := length_starts before
    rw [behind_concat, startsFrom_append, ← List.cons_append, Nat.zero_add]
    by_cases hc : c = '\n'
    · refine ⟨before.length + 1, ?_, by simp [hc]⟩
      rw [if_pos hc, List.getElem?_append_right (Nat.le_of_eq hlength), hlength]
      simp [startsFrom, hc]
    · refine ⟨start, ?_, ?_⟩
      · rw [if_neg hc, List.getElem?_append_left (by rw [hlength]; exact Nat.lt_succ_self _)]
        exact hstart
      · rw [if_neg hc, List.length_append, ← hcolumn]
        rfl

theorem exists_start (before after : List Char) :
    ∃ start, (ofText (before ++ after)).starts[(behind before).line]? = some start ∧
      start + (behind before).column = before.length := by
  obtain ⟨start, hstart, hcolumn⟩ := exists_lastStart before
  refine ⟨start, ?_, hcolumn⟩
  obtain ⟨hlt, -⟩ := List.getElem?_eq_some_iff.mp hstart
  rw [ofText, startsFrom_append, ← List.cons_append, List.getElem?_append_left hlt, hstart]

/-! Searching for a line -/

theorem pairwise_startsFrom (offset : Nat) (text : List Char) :
    (startsFrom offset text).Pairwise (· < ·) := by
  induction text generalizing offset with
  | nil => exact .nil
  | cons c text ih =>
    rw [startsFrom]
    split
    · exact .cons (fun start hstart => (mem_startsFrom hstart).1) (ih _)
    · exact ih _

theorem pairwise_starts (text : List Char) : (ofText text).starts.Pairwise (· < ·) :=
  .cons (fun _ hstart => Nat.zero_lt_of_lt (mem_startsFrom hstart).1) (pairwise_startsFrom 0 text)

/-- What a binary search may answer: a place that holds the offset, or else the one where it would
have to be put in. -/
inductive Searched (starts : List Nat) (offset : Nat) : Except Nat Nat → Prop
  | found {i} : starts[i]? = some offset → Searched starts offset (.ok i)
  | absent {i} : i ≤ starts.length → (∀ start ∈ starts.take i, start < offset) →
      (∀ start ∈ starts.drop i, offset < start) → Searched starts offset (.error i)

theorem lineAt_of_between {index : LineIndex} {offset i : Nat} (hi : i ≤ index.starts.length)
    (hbefore : ∀ start ∈ index.starts.take i, start ≤ offset)
    (hafter : ∀ start ∈ index.starts.drop i, offset < start) : index.lineAt offset = i - 1 := by
  have hnone : (index.starts.drop i).takeWhile (· ≤ offset) = [] := by
    refine List.takeWhile_eq_nil_iff.mpr fun hpos => ?_
    simpa using hafter _ (List.get_mem _ ⟨0, hpos⟩)
  rw [lineAt, ← List.take_append_drop i index.starts,
    List.takeWhile_append_of_pos (by simpa using hbefore), hnone, List.append_nil,
    List.length_take_of_le hi]

theorem lineAt_of_searched {text : List Char} {offset : Nat} {answer : Except Nat Nat}
    (h : Searched (ofText text).starts offset answer) :
    (ofText text).lineAt offset =
      match answer with
      | .ok i => i
      | .error i => i - 1 := by
  cases h with
  | @found i h =>
    obtain ⟨hi, rfl⟩ := List.getElem?_eq_some_iff.mp h
    have hsorted := pairwise_starts text
    -- the line begins at the offset itself, those before it earlier and those behind it later
    rw [← List.take_append_drop i (ofText text).starts, List.drop_eq_getElem_cons hi,
      List.pairwise_append, List.pairwise_cons] at hsorted
    obtain ⟨-, ⟨hafter, -⟩, hbefore⟩ := hsorted
    refine lineAt_of_between (i := i + 1) hi (fun start hstart => ?_) hafter
    rw [List.take_succ_eq_append_getElem hi, List.mem_append, List.mem_singleton] at hstart
    obtain hstart | rfl := hstart
    · exact Nat.le_of_lt (hbefore start hstart _ List.mem_cons_self)
    · exact Nat.le_refl _
  | absent hi hbefore hafter =>
    exact lineAt_of_between hi (fun start hstart => Nat.le_of_lt (hbefore start hstart)) hafter

/-! From offsets to positions -/

theorem lineAt_append (before after : List Char) :
    (ofText (before ++ after)).lineAt before.length = (behind before).line := by
  have hstarts : (ofText (before ++ after)).starts =
      (0 :: startsFrom 0 before) ++ startsFrom before.length after := by
    rw [ofText, startsFrom_append, Nat.zero_add, List.cons_append]
  have hlength := length_starts before
  refine lineAt_of_between (i := (behind before).line + 1) ?_ (fun start hstart => ?_)
    (fun start hstart => ?_)
  · rw [hstarts, List.length_append, hlength]
    exact Nat.le_add_right _ _
  · rw [hstarts, ← hlength, List.take_left] at hstart
    obtain rfl | hmem := List.mem_cons.mp hstart
    · exact Nat.zero_le _
    · have hle := (mem_startsFrom hmem).2
      rwa [Nat.zero_add] at hle
  · rw [hstarts, ← hlength, List.drop_left] at hstart
    exact (mem_startsFrom hstart).1

theorem position_ofText (text : List Char) (offset : Nat) :
    (ofText text).position offset = behind (text.take offset) := by
  have hmin : min offset text.length = (text.take offset).length := List.length_take.symm
  obtain ⟨start, hstart, hcolumn⟩ := exists_start (text.take offset) (text.drop offset)
  have hline := lineAt_append (text.take offset) (text.drop offset)
  rw [List.take_append_drop] at hstart hline
  have hsize : (ofText text).size = text.length := rfl
  simp only [position, hsize, hmin, hline, hstart, Option.getD_some]
  rw [← hcolumn, Nat.add_sub_cancel_left]

/-! Lines -/

/-- A text with one of its lines, which has a line feed or the end of the text at either side. -/
structure Around (text before line after : List Char) : Prop where
  eq : text = before ++ line ++ after
  begins : ∀ c ∈ before.getLast?, c = '\n'
  plain : '\n' ∉ line
  ends : ∀ c ∈ after.head?, c = '\n'

theorem exists_firstLine (text : List Char) :
    ∃ line after, text = line ++ after ∧ '\n' ∉ line ∧ ∀ c ∈ after.head?, c = '\n' := by
  refine ⟨text.takeWhile (· ≠ '\n'), text.dropWhile (· ≠ '\n'),
    List.takeWhile_append_dropWhile.symm, fun hmem => ?_, fun c hc => ?_⟩
  · simpa using List.mem_takeWhile_imp hmem
  · have hnot := List.head?_dropWhile_not (fun d => decide (d ≠ '\n')) text
    rw [hc] at hnot
    simpa using hnot

theorem exists_lastLine (text : List Char) :
    ∃ before line, text = before ++ line ∧ '\n' ∉ line ∧ ∀ c ∈ before.getLast?, c = '\n' := by
  obtain ⟨line, before, htext, hline, hbefore⟩ := exists_firstLine text.reverse
  refine ⟨before.reverse, line.reverse, ?_, by simpa using hline, by simpa using hbefore⟩
  rw [← List.reverse_append, ← htext, List.reverse_reverse]

namespace Around
variable {text before line after : List Char}

theorem exists_at {offset : Nat} (h : offset ≤ text.length) :
    ∃ before line after, Around text before line after ∧ before.length ≤ offset ∧
      offset ≤ before.length + line.length := by
  obtain ⟨before, left, htake, hleft, hbefore⟩ := exists_lastLine (text.take offset)
  obtain ⟨right, after, hdrop, hright, hafter⟩ := exists_firstLine (text.drop offset)
  have hoffset : offset = before.length + left.length := by
    rw [← List.length_append, ← htake, List.length_take_of_le h]
  refine ⟨before, left ++ right, after, ⟨?_, hbefore, ?_, hafter⟩, by omega, ?_⟩
  · rw [← List.append_assoc, ← htake, List.append_assoc, ← hdrop, List.take_append_drop]
  · exact fun hmem => (List.mem_append.mp hmem).elim hleft hright
  · rw [List.length_append]
    omega

theorem below (h : Around text before line after) (first : List Char) :
    Around (first ++ '\n' :: text) (first ++ '\n' :: before) line after := by
  refine ⟨by rw [h.eq]; simp, fun c hc => ?_, h.plain, h.ends⟩
  rw [List.getLast?_append_cons, List.getLast?_cons, Option.mem_some_iff] at hc
  cases hlast : before.getLast? with
  | none => simpa [hlast] using hc.symm
  | some d =>
    have hd := h.begins d hlast
    simpa [hlast, hd] using hc.symm

theorem exists_of_line {k : Nat} (h : (text.splitOn '\n')[k]? = some line) :
    ∃ before after, Around text before line after ∧ (behind before).line = k := by
  -- a later line is found in the text behind the first line feed
  induction k generalizing text with
  | zero =>
    obtain ⟨first, after, rfl, hfirst, hafter⟩ := exists_firstLine text
    have hline : first = line := by
      cases after with
      | nil =>
        rw [List.append_nil, List.splitOn_eq_singleton hfirst] at h
        simpa using h
      | cons c after =>
        obtain rfl := hafter c rfl
        rw [List.splitOn_append_cons_self_of_not_mem hfirst] at h
        simpa using h
    subst hline
    exact ⟨[], after, ⟨rfl, by simp, hfirst, hafter⟩, rfl⟩
  | succ k ih =>
    obtain ⟨first, rest, rfl, hfirst, hrest⟩ := exists_firstLine text
    cases rest with
    | nil =>
      rw [List.append_nil, List.splitOn_eq_singleton hfirst] at h
      simp at h
    | cons c more =>
      obtain rfl := hrest c rfl
      rw [List.splitOn_append_cons_self_of_not_mem hfirst, List.getElem?_cons_succ] at h
      obtain ⟨before, after, hmore, hk⟩ := ih h
      refine ⟨first ++ '\n' :: before, after, hmore.below first, ?_⟩
      have hcount : first.count '\n' = 0 := List.count_eq_zero_of_not_mem hfirst
      have hbefore : before.count '\n' = k := hk
      simp [behind, hcount, hbefore]

theorem position (h : Around text before line after) {column : Nat} (hc : column ≤ line.length) :
    (ofText text).position (before.length + column) = ⟨(behind before).line, column⟩ := by
  have htake : text.take (before.length + column) = before ++ line.take column := by
    rw [h.eq, List.append_assoc, List.take_length_add_append, List.take_append_of_le_length hc]
  have hplain : '\n' ∉ line.take column := fun hmem => h.plain (List.mem_of_mem_take hmem)
  rw [position_ofText, htake, behind_append hplain, column_behind h.begins, Nat.zero_add,
    List.length_take_of_le hc]

theorem offset (h : Around text before line after) (column : Nat) :
    (ofText text).offset ⟨(behind before).line, column⟩ =
      before.length + min column line.length := by
  obtain ⟨start, hstart, hcolumn⟩ := exists_start before (line ++ after)
  have hlength := length_starts before
  have hnext : (ofText text).starts[(behind before).line + 1]? =
      (startsFrom (before.length + line.length) after)[0]? := by
    rw [h.eq, ofText, startsFrom_append, startsFrom_append, startsFrom_of_plain h.plain,
      List.append_nil, ← List.cons_append, List.getElem?_append_right (Nat.le_of_eq hlength),
      hlength, Nat.sub_self, List.length_append, Nat.zero_add]
  have hsize : (ofText text).size = before.length + line.length + after.length := by
    rw [h.eq, ofText, List.length_append, List.length_append]
  rw [← List.append_assoc, ← h.eq] at hstart
  rw [column_behind h.begins, Nat.add_zero] at hcolumn
  simp only [LineIndex.offset, hstart, hnext, hsize, hcolumn]
  -- the line ends at the end of the text or one character before the next line
  cases after with
  | nil => simp [startsFrom, Nat.add_min_add_left]
  | cons c after =>
    obtain rfl := h.ends c rfl
    simp [startsFrom, Nat.add_min_add_left]

end Around

theorem length_splitOn (text : List Char) :
    (text.splitOn '\n').length = text.count '\n' + 1 := by
  induction text with
  | nil => rfl
  | cons c text ih => by_cases hc : c = '\n' <;> simp [List.splitOn_cons_eq_if_modifyHead, ih, hc]

/-! From positions to offsets -/

section
variable {text : List Char} {p : Position}

theorem offset_position {offset : Nat} (h : offset ≤ text.length) :
    (ofText text).offset ((ofText text).position offset) = offset := by
  obtain ⟨before, line, after, hline, hle, hcolumn⟩ := Around.exists_at h
  obtain ⟨column, rfl⟩ := Nat.exists_eq_add_of_le hle
  have hc : column ≤ line.length := Nat.le_of_add_le_add_left hcolumn
  rw [hline.position hc, hline.offset, Nat.min_eq_left hc]

theorem offset_of_line {line : List Char} (h : (text.splitOn '\n')[p.line]? = some line) :
    (ofText text).offset p ≤ text.length ∧
      (ofText text).position ((ofText text).offset p) = ⟨p.line, min p.column line.length⟩ := by
  obtain ⟨before, after, hline, hk⟩ := Around.exists_of_line h
  have hoffset : (ofText text).offset p = before.length + min p.column line.length := by
    rw [← hline.offset, hk]
  rw [hoffset, hline.position (Nat.min_le_right _ _), hk]
  refine ⟨?_, rfl⟩
  have hmin := Nat.min_le_right p.column line.length
  rw [hline.eq, List.length_append, List.length_append]
  omega

theorem offset_of_noLine (h : (text.splitOn '\n')[p.line]? = none) :
    (ofText text).offset p = text.length := by
  have hnone : (ofText text).starts[p.line]? = none := by
    rw [List.getElem?_eq_none_iff, length_splitOn] at h
    rw [List.getElem?_eq_none_iff, ofText, length_starts]
    exact h
  simp only [offset, hnone]
  rfl

end

/-- Positions are the offsets of a text in another form, as long as words of 32 bits can count its
characters. An offset is the line feeds before it and the characters behind the last of them, and
is had back from these; further offsets are further positions, all of them past the end the same.
A position on a line is had back from its offset, too. Right of the line it is the end of the
line, and below the last line the end of the text. -/
theorem position_offset_inverse {text : List Char} (h : text.length < twoTo 32) :
    (∀ offset, offset ≤ text.length →
      (ofText text).position offset = behind (text.take offset) ∧
      (ofText text).offset ((ofText text).position offset) = offset) ∧
    (∀ offset, text.length ≤ offset →
      (ofText text).position offset = (ofText text).position text.length) ∧
    (∀ offset, ((ofText text).position offset).line < twoTo 32 ∧
      ((ofText text).position offset).column < twoTo 32) ∧
    (Monotone fun offset => ((ofText text).position offset).key) ∧
    (∀ p, (ofText text).offset p ≤ text.length) ∧
    (∀ p line, (text.splitOn '\n')[p.line]? = some line → p.column ≤ line.length →
      (ofText text).position ((ofText text).offset p) = p) ∧
    (∀ p line, (text.splitOn '\n')[p.line]? = some line → line.length < p.column →
      (ofText text).position ((ofText text).offset p) = ⟨p.line, line.length⟩) ∧
    ∀ p, (text.splitOn '\n')[p.line]? = none →
      (ofText text).position ((ofText text).offset p) = (ofText text).position text.length := by
  refine ⟨fun o ho => ⟨position_ofText text o, offset_position ho⟩, ?_, ?_, ?_, ?_, ?_, ?_, ?_⟩
  · intro o ho
    rw [position_ofText, position_ofText, List.take_of_length_le ho, List.take_length]
  · intro o
    rw [position_ofText]
    have hline := line_behind_le (text.take o)
    have hcolumn := column_behind_le (text.take o)
    have hle := List.length_take_le' o text
    omega
  · intro a b hab
    obtain ⟨more, hmore⟩ : text.take a <+: text.take b := List.take_prefix_take_left hab
    simp only [position_ofText, ← hmore]
    exact key_behind_le _ _
  · intro p
    cases hp : (text.splitOn '\n')[p.line]? with
    | none => exact Nat.le_of_eq (offset_of_noLine hp)
    | some line => exact (offset_of_line hp).1
  · intro p line hp hc
    rw [(offset_of_line hp).2, Nat.min_eq_left hc]
  · intro p line hp hc
    rw [(offset_of_line hp).2, Nat.min_eq_right (Nat.le_of_lt hc)]
  · intro p hp
    rw [offset_of_noLine hp]

def uneven : List Char := "ab\n\nc\n".toList

theorem position_offset_inverse_uneven : uneven.length < twoTo 32 ∧
    (ofText uneven).position ((ofText uneven).offset ⟨1, 0⟩) = ⟨1, 0⟩ ∧
    (ofText uneven).position ((ofText uneven).offset ⟨0, 9⟩) = ⟨0, 2⟩ ∧
    (ofText uneven).offset ((ofText uneven).position 6) = 6 ∧
    (ofText uneven).position ((ofText uneven).offset ⟨9, 0⟩) =
      (ofText uneven).position uneven.length := by
  have hlength : uneven.length < twoTo 32 := by decide
  obtain ⟨hback, -, -, -, -, hon, hright, hbelow⟩ := position_offset_inverse hlength
  exact ⟨hlength, hon ⟨1, 0⟩ [] (by decide) (by decide),
    hright ⟨0, 9⟩ ['a', 'b'] (by decide) (by decide), (hback 6 (by decide)).2,
    hbelow ⟨9, 0⟩ (by decide)⟩

end LineIndex
end WorkflowLint.Text
