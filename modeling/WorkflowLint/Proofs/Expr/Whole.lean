import WorkflowLint.Proofs.Expr.Fields
import WorkflowLint.Proofs.Json.Order

/-! Objects that are known as a whole. A path leads to the same place in the object and in its
value, which has the fields in the order of their names. Where a name is there only in other cases,
that order decides which of them is meant. -/
namespace WorkflowLint

/-! Looking up a name -/

section
variable {α : Type} {name : String} {entries : List (String × α)} {entry : String × α}

theorem lookupName?_of_mem (hn : (entries.map Prod.fst).Nodup) (h : entry ∈ entries) :
    lookupName? entry.1 entries = some entry.2 := by
  have hfind : entries.find? (·.1 == entry.1) = some entry := by
    induction entries with
    | nil => cases h
    | cons first rest ih =>
      obtain ⟨hfirst, hrest⟩ := List.nodup_cons.mp hn
      obtain rfl | h := List.mem_cons.mp h
      · simp
      · have hne : first.1 ≠ entry.1 := by
          intro heq
          rw [heq] at hfirst
          exact hfirst (List.mem_map_of_mem h)
        simpa [hne] using ih hrest h
  simp only [lookupName?, hfind]

theorem lookupName?_of_not_mem (h : name ∉ entries.map Prod.fst) :
    lookupName? name entries = (entries.find? (Text.sameName ·.1 name)).map (·.2) := by
  have hexact : entries.find? (·.1 == name) = none := by
    rw [List.find?_eq_none]
    intro e he
    have hne : e.1 ≠ name := fun heq => h (heq ▸ List.mem_map_of_mem he)
    simpa using hne
  simp only [lookupName?, hexact]

theorem find?_of_least (ho : entries.Pairwise fun a b => a.1 < b.1) (h : entry ∈ entries)
    (hsame : Text.sameName entry.1 name = true)
    (hleast : ∀ other ∈ entries, Text.sameName other.1 name = true → entry.1 ≤ other.1) :
    entries.find? (Text.sameName ·.1 name) = some entry := by
  induction entries with
  | nil => cases h
  | cons first rest ih =>
    obtain ⟨hfirst, hrest⟩ := List.pairwise_cons.mp ho
    obtain rfl | h := List.mem_cons.mp h
    · simp [hsame]
    · have hnot : ¬Text.sameName first.1 name = true := by
        intro hname
        exact absurd (hfirst entry h) (not_lt.mpr (hleast first List.mem_cons_self hname))
      simpa [hnot] using ih hrest h fun other ho' => hleast other (List.mem_cons_of_mem _ ho')

end

namespace Json

theorem resolve_cons {v w : Json} {s : Segment} (h : v.step? s = some w) (rest : Path) :
    v.resolve (s :: rest) = w.resolve rest := by
  have hat (path : Path) : v.at? (s :: path) = w.at? path := by
    rw [at?, h, Option.bind_some]
  cases rest with
  | nil =>
    rw [resolve, hat]
    rfl
  | cons t rest =>
    have harray : v.indexesArray (s :: t :: rest) = w.indexesArray (t :: rest) := by
      simp only [indexesArray, List.getLast?_cons_cons, List.dropLast_cons_cons, hat]
    rw [resolve, hat, harray, resolve]

theorem resolve_obj_cons {fields : List (String × Json)} {s : Segment}
    (h : (obj fields).step? s = none) (rest : Path) :
    (obj fields).resolve (s :: rest) = .unknown := by
  have hat (path : Path) : (obj fields).at? (s :: path) = none := by
    rw [at?, h, Option.bind_none]
  have harray : (obj fields).indexesArray (s :: rest) = false := by
    cases rest with
    | nil => cases s <;> simp [indexesArray, at?]
    | cons t rest =>
      simp only [indexesArray, List.dropLast_cons_cons, hat]
      split <;> simp_all
  simp [resolve, hat, harray]

end Json

namespace ContextValue

inductive Distinct : ContextValue → Prop
  | known (v : Json) : Distinct (.known v)
  | dynamic : Distinct .dynamic
  | object {fields : List (String × ContextValue)} {isOpen : Bool} :
      (fields.map Prod.fst).Nodup → (∀ field ∈ fields, Distinct field.2) →
      Distinct (.object fields isOpen)

/-- An object has a name, or of the fields that have it in another case the first one is also the
first one by the order of names. -/
def FirstIsLeast (name : String) (fields : List (String × ContextValue)) : Prop :=
  name ∈ fields.map Prod.fst ∨
    ∀ first ∈ fields.find? (Text.sameName ·.1 name),
      ∀ field ∈ fields, Text.sameName field.1 name = true → first.1 ≤ field.1

/-- That is so for all objects on a path. -/
def Settled : ContextValue → Path → Prop
  | .object fields _, .key name :: rest =>
    FirstIsLeast name fields ∧ ∀ child ∈ lookupName? name fields, child.Settled rest
  | _, _ => True

/-! The value of an object -/

section
variable {fields : List (String × ContextValue)} {whole : List (String × Json)}

def wholeField (field : String × ContextValue) : String × Json :=
  (field.1, field.2.whole?.getD .null)

theorem wholeFields?_eq_some_iff : wholeFields? fields = some whole ↔
    (∀ field ∈ fields, ∃ w, field.2.whole? = some w) ∧ whole = fields.map wholeField := by
  induction fields generalizing whole with
  | nil => simp [wholeFields?, eq_comm]
  | cons first rest ih =>
    rw [wholeFields?]
    cases hw : first.2.whole? with
    | none => simp [hw]
    | some w =>
      cases hws : wholeFields? rest with
      | none =>
        have hrest : ¬∀ field ∈ rest, ∃ w, field.2.whole? = some w := by
          intro hall
          have hsome := ih.mpr ⟨hall, rfl⟩
          rw [hws] at hsome
          cases hsome
        simp only [List.forall_mem_cons, hrest, and_false, false_and, reduceCtorEq]
      | some ws =>
        obtain ⟨hall, rfl⟩ := ih.mp hws
        simp only [Option.some.injEq, List.forall_mem_cons, hw, exists_eq', true_and,
          List.map_cons, wholeField, Option.getD_some]
        exact ⟨fun h => ⟨hall, h.symm⟩, fun h => h.2.symm⟩

theorem wholeFields?_names (h : wholeFields? fields = some whole) :
    whole.map Prod.fst = fields.map Prod.fst := by
  rw [(wholeFields?_eq_some_iff.mp h).2, List.map_map]
  rfl

theorem wholeFields?_mem (h : wholeFields? fields = some whole) {field : String × ContextValue}
    (hf : field ∈ fields) : ∃ w, field.2.whole? = some w ∧ (field.1, w) ∈ whole := by
  obtain ⟨hall, rfl⟩ := wholeFields?_eq_some_iff.mp h
  obtain ⟨w, hw⟩ := hall field hf
  exact ⟨w, hw, List.mem_map.mpr ⟨field, hf, by simp [wholeField, hw]⟩⟩

theorem wholeFields?_perm {others : List (String × ContextValue)} (hp : others.Perm fields)
    (h : wholeFields? fields = some whole) :
    ∃ own, wholeFields? others = some own ∧ own.Perm whole := by
  obtain ⟨hall, rfl⟩ := wholeFields?_eq_some_iff.mp h
  refine ⟨others.map wholeField, wholeFields?_eq_some_iff.mpr ⟨?_, rfl⟩, hp.map wholeField⟩
  exact fun field hfield => hall field (hp.mem_iff.mp hfield)

theorem lookupName?_whole {own : List (String × Json)} (hn : (fields.map Prod.fst).Nodup)
    (h : wholeFields? fields = some whole) (ho : Json.InOrder own) (hown : own.Perm whole)
    {name : String} (hs : FirstIsLeast name fields) :
    (∀ child, lookupName? name fields = some child →
      ∃ w, child.whole? = some w ∧ lookupName? name own = some w) ∧
    (lookupName? name fields = none → lookupName? name own = none) := by
  have hnames : (own.map Prod.fst).Perm (fields.map Prod.fst) :=
    wholeFields?_names h ▸ hown.map Prod.fst
  have hback {entry : String × Json} (he : entry ∈ own) : ∃ field ∈ fields, field.1 = entry.1 :=
    List.mem_map.mp (hnames.mem_iff.mp (List.mem_map_of_mem he))
  refine ⟨fun child hchild => ?_, fun hnone => ?_⟩
  · by_cases hexact : name ∈ fields.map Prod.fst
    · obtain ⟨field, hfield, rfl⟩ := List.mem_map.mp hexact
      obtain rfl : field.2 = child := by simpa [lookupName?_of_mem hn hfield] using hchild
      obtain ⟨w, hw, hmem⟩ := wholeFields?_mem h hfield
      exact ⟨w, hw, lookupName?_of_mem ho.nodup (hown.mem_iff.mpr hmem)⟩
    · rw [lookupName?_of_not_mem hexact] at hchild
      obtain ⟨first, hfirst, rfl⟩ := Option.map_eq_some_iff.mp hchild
      have hsame : Text.sameName first.1 name = true := by simpa using List.find?_some hfirst
      obtain ⟨w, hw, hmem⟩ := wholeFields?_mem h (List.mem_of_find?_eq_some hfirst)
      have hleast : ∀ other ∈ own, Text.sameName other.1 name = true → first.1 ≤ other.1 := by
        intro other hother hname
        obtain ⟨field, hfield, heq⟩ := hback hother
        rw [← heq] at hname ⊢
        exact hs.resolve_left hexact first hfirst field hfield hname
      refine ⟨w, hw, ?_⟩
      rw [lookupName?_of_not_mem (mt hnames.mem_iff.mp hexact),
        find?_of_least ho (hown.mem_iff.mpr hmem) hsame hleast]
      rfl
  · refine lookupName?_eq_none.mpr fun entry hentry => ?_
    obtain ⟨field, hfield, heq⟩ := hback hentry
    rw [← heq]
    exact lookupName?_eq_none.mp hnone field hfield

end

theorem whole?_object {fields : List (String × ContextValue)} {isOpen : Bool} {v : Json}
    (h : (object fields isOpen).whole? = some v) :
    isOpen = false ∧ ∃ whole, wholeFields? fields = some whole ∧ v = Json.ofFields whole := by
  rw [whole?] at h
  cases isOpen with
  | true => cases h
  | false =>
    obtain ⟨whole, hwhole, heq⟩ := Option.map_eq_some_iff.mp h
    exact ⟨rfl, whole, hwhole, heq.symm⟩

theorem resolve_eq_whole {c : ContextValue} {v : Json} {path : Path} (hc : c.Distinct)
    (h : c.whole? = some v) (hs : c.Settled path) : c.resolve path = v.resolve path := by
  induction path generalizing c v with
  | nil =>
    rw [resolve, h]
    rfl
  | cons s rest ih =>
    cases hc with
    | known w =>
      obtain rfl : w = v := by simpa [whole?] using h
      exact resolve_known w (s :: rest)
    | dynamic => simp [whole?] at h
    | @object fields isOpen hn hfields =>
      obtain ⟨rfl, whole, hwhole, rfl⟩ := whole?_object h
      obtain ⟨own, heq, horder, hown⟩ :=
        Json.exists_ofFields (by rw [wholeFields?_names hwhole]; exact hn)
      rw [heq]
      cases s with
      | index i =>
        rw [Json.resolve_obj_cons rfl]
        rfl
      | key name =>
        rw [Settled] at hs
        obtain ⟨hsome, hnone⟩ := lookupName?_whole hn hwhole horder hown hs.1
        rw [resolve_object_key]
        cases hl : lookupName? name fields with
        | none =>
          have hstep : (Json.obj own).step? (.key name) = none := hnone hl
          rw [Json.resolve_obj_cons hstep]
          rfl
        | some child =>
          obtain ⟨w, hw, hown⟩ := hsome child hl
          have hstep : (Json.obj own).step? (.key name) = some w := hown
          obtain ⟨field, hfield, -, rfl⟩ := sameName_of_lookupName? hl
          rw [Json.resolve_cons hstep]
          exact ih (hfields field hfield) hw (hs.2 _ hl)

/-! Fields in the order of their names -/

def sortFields (fields : List (String × ContextValue)) : List (String × ContextValue) :=
  fields.mergeSort fun a b => decide (a.1 ≤ b.1)

mutual

def byName : ContextValue → ContextValue
  | .object fields isOpen => .object (sortFields (byNameFields fields)) isOpen
  | c => c

def byNameFields : List (String × ContextValue) → List (String × ContextValue)
  | [] => []
  | (name, c) :: rest => (name, c.byName) :: byNameFields rest

end

section
variable {fields : List (String × ContextValue)}

theorem byNameFields_eq :
    byNameFields fields = fields.map fun field => (field.1, field.2.byName) := by
  induction fields with
  | nil => rfl
  | cons first rest ih => simp [byNameFields, ih]

theorem sortFields_perm : (sortFields fields).Perm fields := List.mergeSort_perm ..

theorem sortFields_sorted : (sortFields fields).Pairwise fun a b => a.1 ≤ b.1 := by
  have htrans (a b c : String × ContextValue) : decide (a.1 ≤ b.1) = true →
      decide (b.1 ≤ c.1) = true → decide (a.1 ≤ c.1) = true := by
    simpa using le_trans
  have htotal (a b : String × ContextValue) :
      (decide (a.1 ≤ b.1) || decide (b.1 ≤ a.1)) = true := by
    simpa using le_total a.1 b.1
  exact (List.pairwise_mergeSort htrans htotal fields).imp of_decide_eq_true

theorem names_sorted :
    ((sortFields (byNameFields fields)).map Prod.fst).Perm (fields.map Prod.fst) := by
  have hnames : (byNameFields fields).map Prod.fst = fields.map Prod.fst := by
    rw [byNameFields_eq, List.map_map]
    rfl
  exact hnames ▸ sortFields_perm.map Prod.fst

theorem exists_of_mem_sorted {field : String × ContextValue}
    (h : field ∈ sortFields (byNameFields fields)) :
    ∃ own ∈ fields, (own.1, own.2.byName) = field := by
  have hmem := sortFields_perm.mem_iff.mp h
  rw [byNameFields_eq] at hmem
  exact List.mem_map.mp hmem

theorem firstIsLeast_of_sorted (h : fields.Pairwise fun a b => a.1 ≤ b.1) (name : String) :
    FirstIsLeast name fields := by
  refine .inr fun first hfirst field hfield hname => ?_
  induction fields with
  | nil => cases hfield
  | cons own rest ih =>
    obtain ⟨hown, hrest⟩ := List.pairwise_cons.mp h
    by_cases hsame : Text.sameName own.1 name = true
    · obtain rfl : own = first := by simpa [hsame] using hfirst
      obtain rfl | hfield := List.mem_cons.mp hfield
      · exact le_refl _
      · exact hown field hfield
    · obtain rfl | hfield := List.mem_cons.mp hfield
      · exact absurd hname hsame
      · exact ih hrest (by simpa [hsame] using hfirst) hfield

end

theorem settled_byName (c : ContextValue) (path : Path) : c.byName.Settled path := by
  induction path generalizing c with
  | nil => cases c <;> simp [byName, Settled]
  | cons s rest ih =>
    cases c with
    | known | dynamic => simp [byName, Settled]
    | object fields isOpen =>
      cases s with
      | index i => simp [byName, Settled]
      | key name =>
        rw [byName, Settled]
        refine ⟨firstIsLeast_of_sorted sortFields_sorted name, fun child hchild => ?_⟩
        obtain ⟨field, hfield, -, rfl⟩ := sameName_of_lookupName? hchild
        obtain ⟨own, -, rfl⟩ := exists_of_mem_sorted hfield
        exact ih own.2

theorem Distinct.byName {c : ContextValue} (h : c.Distinct) : c.byName.Distinct := by
  induction h with
  | known v => exact .known v
  | dynamic => exact .dynamic
  | object hn _ ih =>
    refine .object (names_sorted.nodup_iff.mpr hn) fun field hfield => ?_
    obtain ⟨own, hown, rfl⟩ := exists_of_mem_sorted hfield
    exact ih own hown

theorem Distinct.whole?_byName {c : ContextValue} (hc : c.Distinct) {v : Json}
    (h : c.whole? = some v) : c.byName.whole? = some v := by
  induction hc generalizing v with
  | known w => exact h
  | dynamic => exact h
  | @object fields isOpen hn _ ih =>
    obtain ⟨rfl, whole, hwhole, rfl⟩ := whole?_object h
    obtain ⟨hall, rfl⟩ := wholeFields?_eq_some_iff.mp hwhole
    have hsame : wholeFields? (byNameFields fields) = some (fields.map wholeField) := by
      rw [byNameFields_eq]
      refine wholeFields?_eq_some_iff.mpr ⟨fun field hfield => ?_, ?_⟩
      · obtain ⟨own, hown, rfl⟩ := List.mem_map.mp hfield
        obtain ⟨w, hw⟩ := hall own hown
        exact ⟨w, ih own hown hw⟩
      · rw [List.map_map]
        refine List.map_congr_left fun own hown => ?_
        obtain ⟨w, hw⟩ := hall own hown
        simp [wholeField, hw, ih own hown hw]
    obtain ⟨own, hown, hperm⟩ := wholeFields?_perm sortFields_perm hsame
    rw [ContextValue.byName, whole?, hown]
    have hnames : ((fields.map wholeField).map Prod.fst).Nodup := by
      rw [wholeFields?_names hwhole]
      exact hn
    simp [Json.ofFields_perm hperm.symm hnames]

theorem resolve_nil_eq_known {c : ContextValue} {v : Json} :
    c.resolve [] = .known v ↔ c.whole? = some v := by
  cases hw : c.whole? <;> simp [resolve, hw]

/-- In an object that is known as a whole, a path leads to what it leads to in its value, unless it
takes a name that the object has only in other cases and the first of these is not the least one. In
the value the least one is meant, as it would be if all fields were in the order of their names. -/
theorem field_of_whole {c : ContextValue} {v : Json} (hc : c.Distinct)
    (h : c.resolve [] = .known v) (path : Path) :
    (c.Settled path → c.resolve path = (known v).resolve path) ∧
    (known v).resolve path = c.byName.resolve path := by
  have hw := resolve_nil_eq_known.mp h
  rw [resolve_known]
  refine ⟨resolve_eq_whole hc hw, ?_⟩
  exact (resolve_eq_whole hc.byName (hc.whole?_byName hw) (settled_byName c path)).symm

def tool : ContextValue :=
  .object [("Tool", .object [("name", .known (.str "lake")),
      ("Versions", .known (.arr [.num (.int 4)]))] false),
    ("os", .known (.str "linux"))] false

def toolValue : Json :=
  .obj [("Tool", .obj [("Versions", .arr [.num (.int 4)]), ("name", .str "lake")]),
    ("os", .str "linux")]

theorem field_of_whole_tool :
    tool.Distinct ∧ tool.resolve [] = .known toolValue ∧
    tool.Settled [.key "tool", .key "VERSIONS", .index 7] ∧
    tool.resolve [.key "tool", .key "VERSIONS", .index 7] =
      (known toolValue).resolve [.key "tool", .key "VERSIONS", .index 7] ∧
    (known toolValue).resolve [.key "tool", .key "VERSIONS", .index 7] = .known .null := by
  have hdistinct : tool.Distinct := by
    refine .object (by decide) (List.forall_mem_cons.mpr ⟨?_, by simp [Distinct.known]⟩)
    exact .object (by decide) (by simp [Distinct.known])
  have hwhole : tool.resolve [] = .known toolValue := by rfl
  have hsettled : tool.Settled [.key "tool", .key "VERSIONS", .index 7] := by
    simp [tool, Settled, FirstIsLeast, lookupName?, Text.sameName]
  exact ⟨hdistinct, hwhole, hsettled, (field_of_whole hdistinct hwhole _).1 hsettled, rfl⟩

def spelledTwice : ContextValue :=
  .object [("Path", .known (.num (.int 1))), ("PATH", .known (.num (.int 2)))] false

def spelledTwiceValue : Json := .obj [("PATH", .num (.int 2)), ("Path", .num (.int 1))]

/-- In a third spelling the name means the first field in the object, and the second one in its
value. -/
theorem third_spelling_differs :
    spelledTwice.Distinct ∧ spelledTwice.resolve [] = .known spelledTwiceValue ∧
    spelledTwice.resolve [.key "path"] = .known (.num (.int 1)) ∧
    (known spelledTwiceValue).resolve [.key "path"] = .known (.num (.int 2)) ∧
    spelledTwice.resolve [.key "path"] ≠ (known spelledTwiceValue).resolve [.key "path"] := by
  have hdistinct : spelledTwice.Distinct := .object (by decide) (by simp [Distinct.known])
  have hobject : spelledTwice.resolve [.key "path"] = .known (.num (.int 1)) := rfl
  have hvalue : (known spelledTwiceValue).resolve [.key "path"] = .known (.num (.int 2)) := rfl
  refine ⟨hdistinct, rfl, hobject, hvalue, ?_⟩
  rw [hobject, hvalue]
  simp

end ContextValue
end WorkflowLint
