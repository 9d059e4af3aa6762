import WorkflowLint.Proofs.Marker.Embed
import Mathlib.Algebra.Group.Nat.Even
import Mathlib.Order.WellFounded

/-! The markers of any text, by where delimiters stand and by the number of quotes between them. A
marker begins at the first opening delimiter behind the one before, and ends at the first two
closing braces that an even number of quotes comes before; without them it reaches to the end. -/
namespace WorkflowLint.Marker
open Text

def First (P : List Char → Prop) (front : List Char) : Prop :=
  P front ∧ ∀ other, P other → front.length ≤ other.length

def Opens (text front : List Char) : Prop := front ++ opening <+: text

/-- Two closing braces stand behind `source`, and there is an even number of quotes in it. -/
def Closes (body source : List Char) : Prop :=
  source ++ closing <+: body ∧ Even (source.count '\'')

inductive Ends (before body : List Char) : Marker → Prop
  | complete {source : List Char} : First (Closes body) source →
      Ends before body (around before source)
  | unterminated : (∀ source, ¬Closes body source) →
      Ends before body (.unterminated ⟨byteLength before, byteLength (before ++ opening ++ body)⟩)

/-- The markers of the text `rest` that stands behind `done`. -/
inductive Marked : List Char → List Char → List Marker → Prop
  | nothing {done rest : List Char} : (∀ front, ¬Opens rest front) → Marked done rest []
  | complete {done gap source after : List Char} {items : List Marker} :
      First (Opens (gap ++ opening ++ (source ++ closing ++ after))) gap →
      First (Closes (source ++ closing ++ after)) source →
      Marked (done ++ gap ++ opening ++ source ++ closing) after items →
      Marked done (gap ++ opening ++ (source ++ closing ++ after))
        (around (done ++ gap) source :: items)
  | unterminated {done gap body : List Char} :
      First (Opens (gap ++ opening ++ body)) gap → (∀ source, ¬Closes body source) →
      Marked done (gap ++ opening ++ body)
        [.unterminated ⟨byteLength (done ++ gap), byteLength (done ++ gap ++ opening ++ body)⟩]

theorem exists_first {P : List Char → Prop} (h : ∃ front, P front) : ∃ front, First P front := by
  obtain ⟨front, hfront, hmin⟩ := (measure fun l : List Char => l.length).wf.has_min {l | P l} h
  exact ⟨front, hfront, fun other hother => Nat.le_of_not_lt (hmin other hother)⟩

theorem exists_opens_iff {text : List Char} : (∃ front, Opens text front) ↔ opening <:+: text :=
  Iff.rfl

theorem First.unique {P : List Char → Prop} {a b text : List Char}
    (ha : First P a) (hb : First P b) (hatext : a <+: text) (hbtext : b <+: text) : a = b := by
  have hlength := Nat.le_antisymm (ha.2 b hb.1) (hb.2 a ha.1)
  exact (List.prefix_of_prefix_length_le hatext hbtext hlength.le).eq_of_length hlength

/-! Between markers -/

theorem scan_without_opening {text : List Char} (h : ∀ front, ¬Opens text front) (offset : Nat) :
    scan offset .outside text = [] := by
  have hno : ¬opening <:+: text := fun hi => not_exists.mpr h (exists_opens_iff.mpr hi)
  have hscan := @scan_gap text [] hno (by simp) offset
  rw [List.append_nil] at hscan
  exact hscan

theorem First.no_opening {gap body : List Char} (h : First (Opens (gap ++ opening ++ body)) gap) :
    ¬opening <:+: gap := by
  rintro ⟨front, after, hgap⟩
  have hopens : Opens (gap ++ opening ++ body) front := by
    refine ⟨after ++ opening ++ body, ?_⟩
    rw [← hgap]
    simp only [List.append_assoc]
  have hle := h.2 front hopens
  have hlength := congrArg List.length hgap
  simp only [List.length_append, opening, List.length_cons, List.length_nil] at hlength
  omega

theorem scan_first_opening {gap body : List Char}
    (h : First (Opens (gap ++ opening ++ body)) gap) (offset : Nat) :
    scan offset .outside (gap ++ opening ++ body) =
      scan (offset + byteLength gap + openLength) (.inside (offset + byteLength gap) [] false)
        body := by
  have hbrace : ∀ r, opening ++ body ≠ '\x7b' :: r := by
    intro r hr
    exact absurd (List.cons.inj hr).1 (by decide)
  rw [List.append_assoc, scan_gap h.no_opening hbrace, scan_opening]

/-! Inside of a marker -/

def ClosesFrom (quoted : Bool) (body source : List Char) : Prop :=
  source ++ closing <+: body ∧ Even (quoted.toNat + source.count '\'')

theorem closesFrom_false {body source : List Char} :
    ClosesFrom false body source ↔ Closes body source := by
  simp [ClosesFrom, Closes]

theorem first_closesFrom_false {body source : List Char} :
    First (ClosesFrom false body) source ↔ First (Closes body) source := by
  simp only [First, closesFrom_false]

theorem Closes.prefix_body {body source : List Char} (h : Closes body source) : source <+: body :=
  (List.prefix_append source closing).trans h.1

theorem closesFrom_nil {quoted : Bool} {body : List Char} :
    ClosesFrom quoted body [] ↔ closing <+: body ∧ quoted = false := by
  cases quoted <;> simp [ClosesFrom]

theorem closesFrom_cons {quoted : Bool} {c d : Char} {body source : List Char} :
    ClosesFrom quoted (c :: body) (d :: source) ↔
      d = c ∧ ClosesFrom (quoted != (c == '\'')) body source := by
  rw [ClosesFrom, List.cons_append, List.cons_prefix_cons, and_assoc]
  refine and_congr_right fun hd => and_congr_right fun _ => ?_
  subst hd
  by_cases hquote : d = '\''
  · subst hquote
    cases quoted <;> simp [Nat.even_add_one, Nat.add_comm 1]
  · have hfalse : (d == '\'') = false := by simpa using hquote
    rw [List.count_cons_of_ne hquote, hfalse, Bool.bne_false]

theorem not_closing_of_not_closesFrom {quoted : Bool} {c : Char} {rest : List Char}
    (h : ¬ClosesFrom quoted (c :: rest) []) (r : List Char) (hq : quoted = false)
    (hc : c = '\x7d') (hr : rest = '\x7d' :: r) : False :=
  h (closesFrom_nil.mpr ⟨⟨r, by rw [hc, hr]; rfl⟩, hq⟩)

theorem first_closesFrom_nil {quoted : Bool} {body source : List Char}
    (h : ClosesFrom quoted body []) : First (ClosesFrom quoted body) source ↔ source = [] := by
  constructor
  · intro hfirst
    have hle := hfirst.2 [] h
    exact List.length_eq_zero_iff.mp (Nat.le_zero.mp hle)
  · rintro rfl
    exact ⟨h, fun other _ => Nat.zero_le _⟩

theorem first_closesFrom_cons {quoted : Bool} {c : Char} {body source : List Char}
    (h : ¬ClosesFrom quoted (c :: body) []) : First (ClosesFrom quoted (c :: body)) source ↔
      ∃ rest, First (ClosesFrom (quoted != (c == '\'')) body) rest ∧ c :: rest = source := by
  constructor
  · intro hfirst
    cases source with
    | nil => exact absurd hfirst.1 h
    | cons d source =>
      obtain ⟨rfl, hsource⟩ := closesFrom_cons.mp hfirst.1
      refine ⟨source, ⟨hsource, fun other hother => ?_⟩, rfl⟩
      have hle := hfirst.2 (d :: other) (closesFrom_cons.mpr ⟨rfl, hother⟩)
      simpa using hle
  · rintro ⟨rest, hrest, rfl⟩
    refine ⟨closesFrom_cons.mpr ⟨rfl, hrest.1⟩, fun other hother => ?_⟩
    cases other with
    | nil => exact absurd hother h
    | cons d other =>
      have hle := hrest.2 other (closesFrom_cons.mp hother).2
      simpa using hle

theorem scan_closes {quoted : Bool} {source after : List Char}
    (h : First (ClosesFrom quoted (source ++ closing ++ after)) source) (offset start : Nat)
    (soFar : List Char) :
    scan offset (.inside start soFar quoted) (source ++ closing ++ after) =
      .complete (soFar.reverse ++ source) ⟨start, offset + byteLength source + closeLength⟩ ::
        scan (offset + byteLength source + closeLength) .outside after := by
  induction source generalizing quoted offset soFar with
  | nil =>
    obtain ⟨-, rfl⟩ := closesFrom_nil.mp h.1
    rw [List.nil_append, scan_closing, List.append_nil]
    rfl
  | cons c source ih =>
    have hnot : ¬ClosesFrom quoted (c :: (source ++ closing ++ after)) [] := by
      intro hnil
      have hle := h.2 [] hnil
      simp at hle
    obtain ⟨rest, hrest, hcons⟩ := (first_closesFrom_cons hnot).mp h
    obtain rfl := (List.cons.inj hcons).2
    have hstep := scan.eq_6 offset start soFar quoted c (rest ++ closing ++ after)
      (not_closing_of_not_closesFrom hnot)
    have hsource : (c :: soFar).reverse ++ rest = soFar.reverse ++ (c :: rest) := by simp
    have hoffset : offset + byteLength (c :: rest) = offset + c.utf8Size + byteLength rest := by
      rw [byteLength, Nat.add_assoc]
    rw [List.cons_append, List.cons_append, hstep, ih hrest, hsource, hoffset]

theorem scan_never_closes {quoted : Bool} {body : List Char}
    (h : ∀ source, ¬ClosesFrom quoted body source) (offset start : Nat) (soFar : List Char) :
    scan offset (.inside start soFar quoted) body =
      [.unterminated ⟨start, offset + byteLength body⟩] := by
  induction body generalizing quoted offset soFar with
  | nil => rfl
  | cons c body ih =>
    have hstep := scan.eq_6 offset start soFar quoted c body
      (not_closing_of_not_closesFrom (h []))
    have hrest (source : List Char) : ¬ClosesFrom (quoted != (c == '\'')) body source :=
      fun hs => h (c :: source) (closesFrom_cons.mpr ⟨rfl, hs⟩)
    rw [hstep, ih hrest, byteLength, Nat.add_assoc]

/-! The text as a whole -/

theorem Marked.scan_eq {done rest : List Char} {items : List Marker} (h : Marked done rest items) :
    scan (byteLength done) .outside rest = items := by
  induction h with
  | nothing hno => exact scan_without_opening hno _
  | @complete done gap source after items hopen hclose _ ih =>
    have hstop : byteLength done + byteLength gap + openLength + byteLength source + closeLength =
        byteLength (done ++ gap ++ opening ++ source ++ closing) := by
      simp only [byteLength_append]
      rfl
    rw [scan_first_opening hopen, scan_closes (first_closesFrom_false.mpr hclose), hstop, ih,
      around, byteLength_append done]
    rfl
  | @unterminated done gap body hopen hnever =>
    have hnone (source : List Char) : ¬ClosesFrom false body source :=
      fun hs => hnever source (closesFrom_false.mp hs)
    have hstop : byteLength done + byteLength gap + openLength + byteLength body =
        byteLength (done ++ gap ++ opening ++ body) := by
      simp only [byteLength_append]
      rfl
    rw [scan_first_opening hopen, scan_never_closes hnone, hstop, byteLength_append done]

theorem exists_marked (done rest : List Char) : ∃ items, Marked done rest items := by
  induction hn : rest.length using Nat.strong_induction_on generalizing done rest with
  | _ n ih =>
    by_cases hopen : ∃ front, Opens rest front
    · obtain ⟨gap, hgap⟩ := exists_first hopen
      obtain ⟨body, rfl⟩ := hgap.1
      by_cases hclose : ∃ source, Closes body source
      · obtain ⟨source, hsource⟩ := exists_first hclose
        obtain ⟨after, rfl⟩ := hsource.1.1
        have hlt : after.length < n := by
          rw [← hn]
          simp only [List.length_append, opening, closing, List.length_cons, List.length_nil]
          omega
        obtain ⟨items, hitems⟩ :=
          ih after.length hlt (done ++ gap ++ opening ++ source ++ closing) after rfl
        exact ⟨_, .complete hgap hsource hitems⟩
      · exact ⟨_, .unterminated hgap (not_exists.mp hclose)⟩
    · exact ⟨[], .nothing (not_exists.mp hopen)⟩

theorem marked_markers (text : List Char) : Marked [] text (markers text) := by
  obtain ⟨items, hitems⟩ := exists_marked [] text
  have hscan : markers text = items := hitems.scan_eq
  rwa [hscan]

theorem Marked.no_opening {done rest : List Char} (h : Marked done rest []) :
    ¬opening <:+: rest := by
  cases h with
  | nothing hno => exact fun hopen => not_exists.mpr hno (exists_opens_iff.mpr hopen)

def endOf (start : Nat) : List Marker → Nat
  | [] => start
  | m :: items => endOf m.span.stop items

theorem endOf_concat (start : Nat) (items : List Marker) (m : Marker) :
    endOf start (items ++ [m]) = m.span.stop := by
  induction items generalizing start with
  | nil => rfl
  | cons first items ih => exact ih first.span.stop

theorem Marked.behind {done rest : List Char} {earlier later : List Marker}
    (h : Marked done rest (earlier ++ later)) :
    ∃ before after, done ++ rest = before ++ after ∧
      byteLength before = endOf (byteLength done) earlier ∧ Marked before after later := by
  induction earlier generalizing done rest with
  | nil => exact ⟨done, rest, rfl, rfl, h⟩
  | cons first earlier ih =>
    generalize hitems : first :: earlier ++ later = items at h
    cases h with
    | nothing => cases hitems
    | @complete _ gap source rest' items _ _ hrest =>
      obtain ⟨rfl, rfl⟩ := List.cons.inj hitems
      obtain ⟨before, after, htext, hend, hlater⟩ := ih hrest
      refine ⟨before, after, ?_, hend, hlater⟩
      rw [← htext]
      simp only [List.append_assoc]
    | @unterminated _ gap body _ _ =>
      obtain ⟨rfl, hnil⟩ := List.cons.inj hitems
      obtain ⟨rfl, rfl⟩ := List.append_eq_nil_iff.mp hnil
      refine ⟨done ++ (gap ++ opening ++ body), [], by simp, ?_, .nothing fun front hopen => ?_⟩
      · simp only [endOf, span, List.append_assoc]
      · simp [Opens, opening] at hopen

/-! Literals skipped one by one -/

def sourceOf? : (inLiteral : Bool) → List Char → Option (List Char)
  | _, [] => none
  | true, '\'' :: '\'' :: rest => (sourceOf? true rest).map fun source => '\'' :: '\'' :: source
  | true, '\'' :: rest => (sourceOf? false rest).map ('\'' :: ·)
  | false, '\'' :: rest => (sourceOf? true rest).map ('\'' :: ·)
  | false, '\x7d' :: '\x7d' :: _ => some []
  | inLiteral, c :: rest => (sourceOf? inLiteral rest).map (c :: ·)

theorem not_closesFrom_quote (quoted : Bool) (rest : List Char) :
    ¬ClosesFrom quoted ('\'' :: rest) [] := by
  intro h
  have hbrace := (closesFrom_nil.mp h).1
  simp [closing] at hbrace

/-- Skipping literals is counting quotes: a quote that stands for itself leaves the literal and
enters it again. -/
theorem sourceOf?_eq_some_iff {quoted : Bool} {body source : List Char} :
    sourceOf? quoted body = some source ↔ First (ClosesFrom quoted body) source := by
  fun_induction sourceOf? quoted body generalizing source with
  | case1 quoted =>
    refine iff_of_false (by simp) fun h => ?_
    have hnil := List.prefix_nil.mp h.1.1
    simp [closing] at hnil
  | case2 rest ih =>
    rw [first_closesFrom_cons (not_closesFrom_quote true _), Option.map_eq_some_iff]
    constructor
    · rintro ⟨s, hs, rfl⟩
      refine ⟨'\'' :: s, ?_, rfl⟩
      exact (first_closesFrom_cons (not_closesFrom_quote _ _)).mpr ⟨s, ih.mp hs, rfl⟩
    · rintro ⟨_, hfirst, rfl⟩
      obtain ⟨s, hs, rfl⟩ := (first_closesFrom_cons (not_closesFrom_quote _ _)).mp hfirst
      exact ⟨s, ih.mpr hs, rfl⟩
  | case3 rest _ ih | case4 rest ih =>
    rw [first_closesFrom_cons (not_closesFrom_quote _ _), Option.map_eq_some_iff]
    simp only [ih]
    rfl
  | case5 rest =>
    have hnil : ClosesFrom false ('\x7d' :: '\x7d' :: rest) [] :=
      closesFrom_nil.mpr ⟨⟨rest, rfl⟩, rfl⟩
    rw [first_closesFrom_nil hnil, Option.some.injEq, eq_comm]
  | case6 quoted c rest _ hleave henter hclose ih =>
    have hquote : (c == '\'') = false := by
      cases quoted with
      | true => simpa using hleave rfl
      | false => simpa using henter rfl
    have hnot : ¬ClosesFrom quoted (c :: rest) [] := by
      intro hnil
      obtain ⟨⟨tail, htail⟩, hquoted⟩ := closesFrom_nil.mp hnil
      obtain ⟨hc, hrest⟩ := List.cons.inj htail
      exact hclose tail hquoted hc.symm hrest.symm
    rw [first_closesFrom_cons hnot, hquote, Bool.bne_false, Option.map_eq_some_iff]
    simp only [ih]

theorem Ends.sourceOf?_iff {before body source : List Char} {m : Marker} (h : Ends before body m) :
    sourceOf? false body = some source ↔ m = around before source := by
  rw [sourceOf?_eq_some_iff, first_closesFrom_false]
  cases h with
  | @complete found hfound =>
    constructor
    · intro hfirst
      rw [hfound.unique hfirst hfound.1.prefix_body hfirst.1.prefix_body]
    · intro heq
      cases heq
      exact hfound
  | unterminated hnever =>
    exact iff_of_false (fun hfirst => hnever source hfirst.1) (by simp [around])

theorem Marked.first_item {done rest : List Char} {m : Marker} {later : List Marker}
    (h : Marked done rest (m :: later)) : ∃ gap body, rest = gap ++ opening ++ body ∧
      First (Opens rest) gap ∧ Ends (done ++ gap) body m ∧
      ∀ span, m = .unterminated span → later = [] := by
  cases h with
  | complete hopen hclose _ => exact ⟨_, _, rfl, hopen, .complete hclose, by simp [around]⟩
  | unterminated hopen hnever => exact ⟨_, _, rfl, hopen, .unterminated hnever, fun _ _ => rfl⟩

/-- Every item of a text begins at the first opening delimiter behind the item before it. It ends
behind the first two closing braces that an even number of quotes comes before, which is where a
reader arrives that skips the literals one by one; if there are no such braces, it reaches to the
end of the text and is the last item. Behind the last complete marker no other begins, and a text
has items exactly if it has an opening delimiter. -/
theorem markers_at_first_delimiters (text : List Char) :
    (∀ earlier m later, markers text = earlier ++ m :: later → ∃ done gap body,
      text = done ++ gap ++ opening ++ body ∧ byteLength done = endOf 0 earlier ∧
      First (Opens (gap ++ opening ++ body)) gap ∧ Ends (done ++ gap) body m ∧
      (∀ source, sourceOf? false body = some source ↔ m = around (done ++ gap) source) ∧
      ∀ span, m = .unterminated span → later = []) ∧
    (∀ earlier source span, markers text = earlier ++ [.complete source span] →
      ∃ done rest, text = done ++ rest ∧ byteLength done = span.stop ∧ ¬opening <:+: rest) ∧
    (hasMarkers text = true ↔ markers text ≠ []) := by
  have hmarked := marked_markers text
  refine ⟨fun earlier m later hitems => ?_, fun earlier source span hitems => ?_, ?_⟩
  · rw [hitems] at hmarked
    obtain ⟨done, rest, htext, hend, hrest⟩ := hmarked.behind
    obtain ⟨gap, body, rfl, hopen, hends, hlast⟩ := hrest.first_item
    refine ⟨done, gap, body, ?_, hend, hopen, hends, fun source => hends.sourceOf?_iff, hlast⟩
    simpa only [List.nil_append, List.append_assoc] using htext
  · rw [hitems, ← List.append_nil (earlier ++ _)] at hmarked
    obtain ⟨done, rest, htext, hend, hrest⟩ := hmarked.behind
    rw [endOf_concat] at hend
    exact ⟨done, rest, htext, hend, hrest.no_opening⟩
  · rw [hasMarkers_iff]
    constructor
    · intro hopen hnil
      rw [hnil] at hmarked
      exact hmarked.no_opening hopen
    · intro hitems
      obtain ⟨m, later, hcons⟩ := List.exists_cons_of_ne_nil hitems
      rw [hcons] at hmarked
      obtain ⟨gap, body, -, hopen, -, -⟩ := hmarked.first_item
      exact exists_opens_iff.mp ⟨gap, hopen.1⟩

def tangled : List Char := "é$\x7b\x7b 'a''\x7d\x7d' \x7d\x7d\x7d$$\x7b\x7b '\x7d\x7d".toList

def tangledLiteral : Marker := .complete " 'a''\x7d\x7d' ".toList ⟨2, 16⟩

theorem markers_at_first_delimiters_tangled :
    markers tangled = [tangledLiteral] ++ .unterminated ⟨18, 25⟩ :: [] ∧
    (∃ done gap body, tangled = done ++ gap ++ opening ++ body ∧
      byteLength done = endOf 0 [tangledLiteral] ∧
      First (Opens (gap ++ opening ++ body)) gap ∧
      Ends (done ++ gap) body (.unterminated ⟨18, 25⟩)) ∧
    markers (tangled.take 16) = [] ++ [tangledLiteral] ∧
    ∃ done rest, tangled.take 16 = done ++ rest ∧ byteLength done = 16 ∧ ¬opening <:+: rest := by
  have hitems : markers tangled = [tangledLiteral] ++ .unterminated ⟨18, 25⟩ :: [] := by
    decide +kernel
  have hlast : markers (tangled.take 16) = [] ++ [tangledLiteral] := by decide +kernel
  obtain ⟨done, gap, body, htext, hend, hopen, hends, -⟩ :=
    (markers_at_first_delimiters tangled).1 _ _ _ hitems
  exact ⟨hitems, ⟨done, gap, body, htext, hend, hopen, hends⟩, hlast,
    (markers_at_first_delimiters (tangled.take 16)).2.1 _ _ _ hlast⟩

end WorkflowLint.Marker
