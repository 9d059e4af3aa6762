import Mathlib.Data.List.Basic
import Mathlib.Data.String.Basic
import WorkflowLint.Json.Value

/-! Objects built field by field. Their fields are in the order of the names, and if no name comes
twice they are the given ones. -/
namespace WorkflowLint.Json

def InOrder (fields : List (String × Json)) : Prop := fields.Pairwise fun a b => a.1 < b.1

theorem InOrder.nodup {fields : List (String × Json)} (h : InOrder fields) :
    (fields.map Prod.fst).Nodup := by
  rw [List.Nodup, List.pairwise_map]
  exact h.imp fun hlt => ne_of_lt hlt

theorem mem_insertField {name : String} {value : Json} {fields : List (String × Json)}
    {field : String × Json} (h : field ∈ insertField name value fields) :
    field = (name, value) ∨ field ∈ fields := by
  induction fields with
  | nil => exact .inl (List.mem_singleton.mp h)
  | cons first rest ih =>
    unfold insertField at h
    split at h
    · exact List.mem_cons.mp h
    · split at h
      · exact (List.mem_cons.mp h).imp_right (List.mem_cons_of_mem first)
      · obtain rfl | h := List.mem_cons.mp h
        · exact .inr List.mem_cons_self
        · exact (ih h).imp_right (List.mem_cons_of_mem first)

theorem InOrder.insertField {fields : List (String × Json)} (h : InOrder fields) (name : String)
    (value : Json) : InOrder (Json.insertField name value fields) := by
  induction fields with
  | nil => exact List.pairwise_singleton _ _
  | cons first rest ih =>
    obtain ⟨hfirst, hrest⟩ := List.pairwise_cons.mp h
    unfold Json.insertField
    split
    · next hlt =>
      refine List.pairwise_cons.mpr ⟨fun field hfield => ?_, h⟩
      obtain rfl | hfield := List.mem_cons.mp hfield
      · exact hlt
      · exact lt_trans hlt (hfirst field hfield)
    · next hle =>
      split
      · next heq =>
        exact List.pairwise_cons.mpr ⟨fun field hfield => heq ▸ hfirst field hfield, hrest⟩
      · next hne =>
        refine List.pairwise_cons.mpr ⟨fun field hfield => ?_, ih hrest⟩
        obtain rfl | hfield := mem_insertField hfield
        · exact lt_of_le_of_ne (not_lt.mp hle) (Ne.symm hne)
        · exact hfirst field hfield

theorem insertField_perm {name : String} {fields : List (String × Json)}
    (h : name ∉ fields.map Prod.fst) (value : Json) :
    (insertField name value fields).Perm ((name, value) :: fields) := by
  induction fields with
  | nil => exact .refl _
  | cons first rest ih =>
    simp only [List.map_cons, List.mem_cons, not_or] at h
    unfold insertField
    split
    · exact .refl _
    · rw [if_neg h.1]
      exact ((ih h.2).cons first).trans (.swap _ _ _)

theorem foldl_insertField {fields all : List (String × Json)} (h : InOrder all)
    (hn : ((fields ++ all).map Prod.fst).Nodup) :
    InOrder (fields.foldl (fun all (name, value) => insertField name value all) all) ∧
    (fields.foldl (fun all (name, value) => insertField name value all) all).Perm
      (fields ++ all) := by
  induction fields generalizing all with
  | nil => exact ⟨h, .refl _⟩
  | cons first rest ih =>
    have hmiddle : (rest ++ first :: all).Perm (first :: rest ++ all) := List.perm_middle
    have hnew : first.1 ∉ all.map Prod.fst := by
      simp only [List.cons_append, List.map_cons, List.nodup_cons, List.map_append,
        List.mem_append, not_or] at hn
      exact hn.1.2
    have hinserted := insertField_perm hnew first.2
    have hperm := (hinserted.append_left rest).trans hmiddle
    obtain ⟨horder, hrest⟩ := ih (h.insertField first.1 first.2) ((hperm.map _).nodup_iff.mpr hn)
    exact ⟨horder, hrest.trans hperm⟩

theorem exists_ofFields {fields : List (String × Json)} (h : (fields.map Prod.fst).Nodup) :
    ∃ own, ofFields fields = .obj own ∧ InOrder own ∧ own.Perm fields := by
  have hempty : InOrder [] := List.Pairwise.nil
  obtain ⟨horder, hperm⟩ := foldl_insertField hempty (by simpa using h)
  rw [List.append_nil] at hperm
  exact ⟨_, rfl, horder, hperm⟩

theorem InOrder.eq_of_perm {a b : List (String × Json)} (ha : InOrder a) (hb : InOrder b)
    (h : a.Perm b) : a = b :=
  h.eq_of_pairwise (fun _ _ _ _ hlt hgt => absurd hlt (lt_asymm hgt)) ha hb

theorem ofFields_perm {a b : List (String × Json)} (h : a.Perm b) (hn : (a.map Prod.fst).Nodup) :
    ofFields a = ofFields b := by
  obtain ⟨own, heq, horder, hperm⟩ := exists_ofFields hn
  obtain ⟨other, heq', horder', hperm'⟩ := exists_ofFields ((h.map Prod.fst).nodup_iff.mp hn)
  rw [heq, heq', horder.eq_of_perm horder' ((hperm.trans h).trans hperm'.symm)]

end WorkflowLint.Json
