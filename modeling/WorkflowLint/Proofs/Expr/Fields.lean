import WorkflowLint.Expr.Context

/-! Names in objects: which names an object has that was built field by field, and what an access
to one of them comes to. -/
namespace WorkflowLint

theorem sameName_of_lookupName? {α : Type} {name : String} {entries : List (String × α)} {value : α}
    (h : lookupName? name entries = some value) :
    ∃ entry ∈ entries, Text.sameName entry.1 name = true ∧ entry.2 = value := by
  unfold lookupName? at h
  cases hexact : entries.find? (·.1 == name) with
  | some entry =>
    have hname : entry.1 = name := by simpa using List.find?_some hexact
    rw [hexact] at h
    refine ⟨entry, List.mem_of_find?_eq_some hexact, ?_, Option.some.inj h⟩
    rw [hname]
    exact Text.sameName_refl name
  | none =>
    rw [hexact] at h
    obtain ⟨entry, hfind, hvalue⟩ := Option.map_eq_some_iff.mp h
    have hname : Text.sameName entry.1 name = true := by simpa using List.find?_some hfind
    exact ⟨entry, List.mem_of_find?_eq_some hfind, hname, hvalue⟩

theorem lookupName?_eq_none {α : Type} {name : String} {entries : List (String × α)} :
    lookupName? name entries = none ↔ ∀ entry ∈ entries, Text.sameName entry.1 name = false := by
  unfold lookupName?
  cases hexact : entries.find? (·.1 == name) with
  | some entry =>
    have hname : entry.1 = name := by simpa using List.find?_some hexact
    have hmem := List.mem_of_find?_eq_some hexact
    refine iff_of_false (by simp) fun hall => ?_
    have hfalse := hall entry hmem
    rw [hname, Text.sameName_refl] at hfalse
    cases hfalse
  | none => simp [List.find?_eq_none]

namespace ContextValue

theorem mem_insertField {name : String} {value : ContextValue}
    {fields : List (String × ContextValue)} {field : String × ContextValue}
    (h : field ∈ insertField name value fields) : field ∈ fields ∨ field = (name, value) := by
  induction fields with
  | nil => exact .inr (List.mem_singleton.mp h)
  | cons first rest ih =>
    obtain ⟨n, v⟩ := first
    unfold insertField at h
    split at h
    · next hn =>
      obtain rfl | h := List.mem_cons.mp h
      · exact .inr (by rw [hn])
      · exact .inl (List.mem_cons_of_mem _ h)
    · obtain rfl | h := List.mem_cons.mp h
      · exact .inl List.mem_cons_self
      · exact (ih h).imp_left (List.mem_cons_of_mem _)

theorem names_insertField (name : String) (value : ContextValue)
    (fields : List (String × ContextValue)) (other : String) :
    other ∈ (insertField name value fields).map Prod.fst ↔
      other = name ∨ other ∈ fields.map Prod.fst := by
  induction fields with
  | nil => simp [insertField]
  | cons first rest ih =>
    obtain ⟨n, v⟩ := first
    unfold insertField
    by_cases hn : n = name
    · simp [hn]
    · simp only [hn, if_false, List.map_cons, List.mem_cons, ih]
      exact or_left_comm

theorem mem_insertAll {fields more : List (String × ContextValue)} {field : String × ContextValue}
    (h : field ∈ insertAll fields more) : field ∈ fields ∨ field ∈ more := by
  induction more generalizing fields with
  | nil => exact .inl h
  | cons first more ih =>
    obtain h | h := ih h
    · obtain h | rfl := mem_insertField h
      · exact .inl h
      · exact .inr List.mem_cons_self
    · exact .inr (List.mem_cons_of_mem first h)

theorem names_insertAll (fields more : List (String × ContextValue)) (name : String) :
    name ∈ (insertAll fields more).map Prod.fst ↔
      name ∈ fields.map Prod.fst ∨ name ∈ more.map Prod.fst := by
  induction more generalizing fields with
  | nil => simp [insertAll]
  | cons first more ih =>
    have hstep := ih (insertField first.1 first.2 fields)
    rw [names_insertField] at hstep
    rw [List.map_cons, List.mem_cons, ← or_assoc, or_comm (a := name ∈ fields.map Prod.fst)]
    exact hstep

/-! The last field of a name is the one that counts. -/

theorem find?_insertField_self (name : String) (value : ContextValue)
    (fields : List (String × ContextValue)) :
    (insertField name value fields).find? (·.1 == name) = some (name, value) := by
  induction fields with
  | nil => simp [insertField]
  | cons first rest ih =>
    by_cases hname : first.1 = name
    · simp [insertField, hname]
    · simpa [insertField, hname] using ih

theorem find?_insertField_of_ne {name other : String} (h : other ≠ name) (value : ContextValue)
    (fields : List (String × ContextValue)) :
    (insertField other value fields).find? (·.1 == name) = fields.find? (·.1 == name) := by
  induction fields with
  | nil => simp [insertField, h]
  | cons first rest ih =>
    by_cases hother : first.1 = other
    · simp [insertField, hother, h]
    · simp only [insertField, hother, if_false, List.find?_cons, ih]

theorem find?_insertAll_of_ne {name : String} {more : List (String × ContextValue)}
    (h : ∀ field ∈ more, field.1 ≠ name) (fields : List (String × ContextValue)) :
    (insertAll fields more).find? (·.1 == name) = fields.find? (·.1 == name) := by
  induction more generalizing fields with
  | nil => rfl
  | cons first more ih =>
    obtain ⟨hfirst, hmore⟩ := List.forall_mem_cons.mp h
    exact (ih hmore _).trans (find?_insertField_of_ne hfirst first.2 fields)

theorem resolve_object_key (fields : List (String × ContextValue)) (isOpen : Bool) (name : String)
    (rest : Path) : (object fields isOpen).resolve (.key name :: rest) =
      match lookupName? name fields with
      | some child => child.resolve rest
      | none => if isOpen then .indeterminate else .unknown := by
  cases hl : lookupName? name fields <;> simp only [resolve, hl]

theorem resolve_closed_key {fields : List (String × ContextValue)} {rest : Path}
    {answer : Resolution} (h : ∀ field ∈ fields, field.2.resolve rest = answer) (name : String) :
    (closed fields).resolve (.key name :: rest) =
      if fields.any fun field => Text.sameName field.1 name then answer else .unknown := by
  rw [closed, resolve_object_key]
  cases hl : lookupName? name (insertAll [] fields) with
  | some child =>
    obtain ⟨field, hf, hname, rfl⟩ := sameName_of_lookupName? hl
    have hmem : field ∈ fields := (mem_insertAll hf).resolve_left List.not_mem_nil
    have hany : (fields.any fun field => Text.sameName field.1 name) = true :=
      List.any_eq_true.mpr ⟨field, hmem, hname⟩
    simp only [hany, if_true]
    exact h field hmem
  | none =>
    have hnone := lookupName?_eq_none.mp hl
    have hany : (fields.any fun field => Text.sameName field.1 name) = false := by
      rw [List.any_eq_false]
      intro field hf hname
      have hnames := (names_insertAll [] fields field.1).mpr (.inr (List.mem_map_of_mem hf))
      obtain ⟨entry, he, heq⟩ := List.mem_map.mp hnames
      have hfalse := hnone entry he
      rw [heq, hname] at hfalse
      cases hfalse
    simp [hany]

theorem resolve_closed_last {name : String} {before after : List (String × ContextValue)}
    (h : ∀ field ∈ after, field.1 ≠ name) (value : ContextValue) (rest : Path) :
    (closed (before ++ (name, value) :: after)).resolve (.key name :: rest) =
      value.resolve rest := by
  have hsplit : insertAll [] (before ++ (name, value) :: after) =
      insertAll (insertField name value (insertAll [] before)) after := by
    simp [insertAll]
  have hfind : (insertAll [] (before ++ (name, value) :: after)).find? (·.1 == name) =
      some (name, value) := by
    rw [hsplit, find?_insertAll_of_ne h, find?_insertField_self]
  rw [closed, resolve_object_key]
  simp only [lookupName?, hfind]

theorem resolve_closed_unknown {name : String} {fields : List (String × ContextValue)}
    (h : ∀ field ∈ fields, Text.sameName field.1 name = false) (rest : Path) :
    (closed fields).resolve (.key name :: rest) = .unknown := by
  have hnone : lookupName? name (insertAll [] fields) = none := by
    refine lookupName?_eq_none.mpr fun field hfield => h field ?_
    exact (mem_insertAll hfield).resolve_left List.not_mem_nil
  rw [closed, resolve_object_key, hnone]
  rfl

theorem resolve_closed_map {value : String → ContextValue} {names : List String} {name : String}
    (h : name ∈ names) (rest : Path) :
    (closed (names.map fun n => (n, value n))).resolve (.key name :: rest) =
      (value name).resolve rest := by
  have hfind (fields : List (String × ContextValue)) :
      (insertAll fields (names.map fun n => (n, value n))).find? (·.1 == name) =
        some (name, value name) := by
    induction names generalizing fields with
    | nil => cases h
    | cons first names ih =>
      by_cases hlater : name ∈ names
      · exact ih hlater _
      · obtain rfl : name = first := by simpa [hlater] using h
        have hother : ∀ field ∈ names.map fun n => (n, value n), field.1 ≠ name := by
          intro field hfield heq
          obtain ⟨n, hn, rfl⟩ := List.mem_map.mp hfield
          exact hlater (heq ▸ hn)
        exact (find?_insertAll_of_ne hother _).trans (find?_insertField_self name _ fields)
  rw [closed, resolve_object_key]
  simp only [lookupName?, hfind]

theorem resolve_known (v : Json) (path : Path) : (known v).resolve path = v.resolve path := by
  cases path <;> rfl

theorem resolve_dynamic (path : Path) : dynamic.resolve path = .indeterminate := by
  cases path <;> rfl

theorem resolve_anyFields (path : Path) : anyFields.resolve path = .indeterminate := by
  match path with
  | [] => rfl
  | .key name :: rest => rfl
  | .index i :: rest => rfl

theorem resolve_names (fields : List String) (name : String) (rest : Path) :
    (names fields).resolve (.key name :: rest) =
      if fields.any (Text.sameName · name) then .indeterminate else .unknown := by
  have hall : ∀ field ∈ fields.map fun n => (n, dynamic),
      field.2.resolve rest = .indeterminate := by
    intro field hfield
    obtain ⟨n, -, rfl⟩ := List.mem_map.mp hfield
    exact resolve_dynamic rest
  rw [names, resolve_closed_key hall, List.any_map]
  rfl

end ContextValue

theorem Expr.Resolver.ofProvider_of_eq {provider : ContextProvider} {name : String}
    {value : ContextValue} (h : provider name = some value) (path : Path) :
    Expr.Resolver.ofProvider provider name path = value.resolve path := by
  simp only [Expr.Resolver.ofProvider, h]

/-- Some name is none of those on a list, in letters of either case: one that is longer than all of
them. -/
theorem exists_other_name (names : List String) :
    ∃ name, ∀ other ∈ names, Text.sameName other name = false := by
  have hbound : ∃ n, ∀ other ∈ names, other.toList.length ≤ n := by
    induction names with
    | nil => exact ⟨0, by simp⟩
    | cons first names ih =>
      obtain ⟨n, hn⟩ := ih
      refine ⟨first.toList.length + n, List.forall_mem_cons.mpr ⟨Nat.le_add_right _ _, ?_⟩⟩
      exact fun other hother => Nat.le_trans (hn other hother) (Nat.le_add_left _ _)
  obtain ⟨n, hn⟩ := hbound
  refine ⟨String.ofList (List.replicate (n + 1) 'a'), fun other hother => ?_⟩
  rw [Bool.eq_false_iff]
  intro hsame
  have hlength := congrArg List.length (eq_of_beq hsame)
  rw [List.length_map, List.length_map, String.toList_ofList, List.length_replicate] at hlength
  have hle := hn other hother
  omega

end WorkflowLint
