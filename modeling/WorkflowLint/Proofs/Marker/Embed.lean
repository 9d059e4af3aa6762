import WorkflowLint.Marker
import WorkflowLint.Proofs.Expr.Word
import Mathlib.Data.List.Infix

/-! Expressions put between delimiters are found again, each at its place: the search for the end of
a marker and the reading of tokens agree on where a string literal ends. -/
namespace WorkflowLint.Marker
open Text

def opening : List Char := ['$', '\x7b', '\x7b']

def closing : List Char := ['\x7d', '\x7d']

def embed (first : List Char) : List (List Char × List Char) → List Char
  | [] => first
  | (source, gap) :: rest => first ++ opening ++ source ++ closing ++ embed gap rest

def around (before source : List Char) : Marker :=
  .complete source ⟨byteLength before, byteLength (before ++ opening ++ source ++ closing)⟩

def placed (before : List Char) : List (List Char × List Char) → List Marker
  | [] => []
  | (source, gap) :: rest =>
    around before source :: placed (before ++ opening ++ source ++ closing ++ gap) rest

theorem embed_append (a b : List Char) (parts : List (List Char × List Char)) :
    embed (a ++ b) parts = a ++ embed b parts := by
  cases parts with
  | nil => rfl
  | cons p parts => simp [embed]

theorem hasMarkers_iff {text : List Char} : hasMarkers text = true ↔ opening <:+: text := by
  induction text with
  | nil => simp [hasMarkers, opening]
  | cons c cs ih =>
    by_cases hopen : opening <+: c :: cs
    · refine iff_of_true ?_ hopen.isInfix
      obtain ⟨rest, hrest⟩ := hopen
      rw [← hrest]
      rfl
    · have hnot (rest : List Char) (hc : c = '$') : cs ≠ '\x7b' :: '\x7b' :: rest := by
        rintro rfl
        exact hopen ⟨rest, by rw [hc]; rfl⟩
      rw [hasMarkers.eq_3 c cs hnot, ih, List.infix_cons_iff, or_iff_right hopen]

/-! Outside of a marker -/

theorem no_opening {c : Char} {gap rest : List Char} (h : ¬ opening <:+: c :: gap)
    (hr : ∀ r, rest ≠ '\x7b' :: r) (r : List Char) (hc : c = '$') :
    gap ++ rest ≠ '\x7b' :: '\x7b' :: r := by
  intro heq
  match gap with
  | [] => exact hr _ heq
  | [b] => exact hr _ (List.cons.inj heq).2
  | b :: d :: gap =>
    obtain ⟨hb, heq'⟩ := List.cons.inj heq
    obtain ⟨hd, -⟩ := List.cons.inj heq'
    rw [hc, hb, hd] at h
    exact h ⟨[], gap, rfl⟩

theorem scan_gap {gap rest : List Char} (h : ¬ opening <:+: gap) (hr : ∀ r, rest ≠ '\x7b' :: r)
    (offset : Nat) :
    scan offset .outside (gap ++ rest) = scan (offset + byteLength gap) .outside rest := by
  induction gap generalizing offset with
  | nil => rfl
  | cons c gap ih =>
    have hgap : ¬ opening <:+: gap := fun hi => h (hi.trans (List.suffix_cons c gap).isInfix)
    rw [List.cons_append, scan.eq_4 offset c (gap ++ rest) (no_opening h hr), ih hgap]
    rw [byteLength, Nat.add_assoc]

theorem scan_opening (offset : Nat) (rest : List Char) :
    scan offset .outside (opening ++ rest) =
      scan (offset + openLength) (.inside offset [] false) rest := scan.eq_3 offset rest

/-! Inside of a marker -/

theorem scan_inside_cons {c : Char} {quoted : Bool} (h : quoted = true ∨ c ≠ '\x7d')
    (offset start : Nat) (soFar rest : List Char) :
    scan offset (.inside start soFar quoted) (c :: rest) =
      scan (offset + c.utf8Size) (.inside start (c :: soFar) (quoted != (c == '\''))) rest := by
  refine scan.eq_6 offset start soFar quoted c rest fun r hq hc _ => ?_
  obtain h | h := h
  · exact absurd (hq.symm.trans h) (by decide)
  · exact h hc

theorem scan_closing (offset start : Nat) (soFar rest : List Char) :
    scan offset (.inside start soFar false) (closing ++ rest) =
      .complete soFar.reverse ⟨start, offset + closeLength⟩ ::
        scan (offset + closeLength) .outside rest := scan.eq_5 offset start soFar rest

/-- The scan takes all of a word and has left the quotes when it has taken it. -/
def Passes (quoted : Bool) (word : List Char) : Prop :=
  ∀ offset start soFar rest, scan offset (.inside start soFar quoted) (word ++ rest) =
    scan (offset + byteLength word) (.inside start (word.reverse ++ soFar) false) rest

theorem Passes.nil : Passes false [] := fun _ _ _ _ => rfl

theorem Passes.append {quoted : Bool} {u v : List Char} (hu : Passes quoted u)
    (hv : Passes false v) : Passes quoted (u ++ v) := by
  intro offset start soFar rest
  rw [List.append_assoc, hu, hv, byteLength_append, List.reverse_append, List.append_assoc,
    Nat.add_assoc]

theorem Passes.cons {quoted : Bool} {c : Char} {word : List Char}
    (h : quoted = true ∨ c ≠ '\x7d') (hw : Passes (quoted != (c == '\'')) word) :
    Passes quoted (c :: word) := by
  intro offset start soFar rest
  rw [List.cons_append, scan_inside_cons h, hw, byteLength, Nat.add_assoc, List.reverse_cons,
    List.append_assoc, List.singleton_append]

theorem Passes.plain {word : List Char} (h : ∀ c ∈ word, Expr.Plain c) : Passes false word := by
  induction word with
  | nil => exact .nil
  | cons c word ih =>
    obtain ⟨hquote, hbrace⟩ := h c (List.mem_cons_self ..)
    have hw := ih fun d hd => h d (List.mem_cons_of_mem c hd)
    have hq : (c == '\'') = false := by simpa using hquote
    exact .cons (.inr hbrace) (by rwa [hq])

/-- Behind its first quote, a literal is left where its reading ends: two quotes in a row are two
changes between inside and outside. -/
theorem Passes.stringBody {text s : List Char} {n : Nat} (h : Expr.stringBody text = some (s, n)) :
    Passes true (text.take n) := by
  fun_induction Expr.stringBody text generalizing s n with
  | case1 => cases h
  | case2 rest ih =>
    obtain ⟨⟨s', m⟩, hb, he⟩ := Option.map_eq_some_iff.1 h
    cases he
    exact .cons (.inl rfl) (.cons (.inr (by decide)) (ih hb))
  | case3 rest hrest =>
    cases h
    exact .cons (.inl rfl) .nil
  | case4 c rest _ hc ih =>
    obtain ⟨⟨s', m⟩, hb, he⟩ := Option.map_eq_some_iff.1 h
    cases he
    have hq : (c == '\'') = false := by simpa using hc
    exact .cons (.inl rfl) (by rw [hq]; exact ih hb)

theorem Passes.nextToken {c : Char} {rest : List Char} {t : Expr.Token} {n : Nat}
    (h : Expr.nextToken c rest = (some t, n)) : Passes false (c :: rest.take n) := by
  obtain ⟨rfl, s, hs⟩ | hplain := Expr.nextToken_word h
  · exact .cons (.inr (by decide)) (.stringBody hs)
  · exact .plain hplain

theorem Passes.lexFrom {offset : Nat} {source : List Char} {tokens : List Expr.Lexeme}
    (h : Expr.lexFrom offset source = .ok tokens) : Passes false source := by
  fun_induction Expr.lexFrom offset source generalizing tokens with
  | case1 => exact .nil
  | case2 offset c rest hl ih =>
    have hc : Passes false [c] := .plain (by simpa using Expr.plain_of_isLayout hl)
    exact hc.append (ih h)
  | case3 => cases h
  | case4 offset c rest hl found word stop t ht =>
    rename_i ih
    have hword : Passes false (c :: rest.take found.2) := .nextToken (Prod.ext ht rfl)
    cases hrest : Expr.lexFrom stop (rest.drop found.2) with
    | error e =>
      rw [hrest] at h
      cases h
    | ok more => simpa using hword.append (ih hrest)

/-! The text as a whole -/

theorem scan_around {gap source : List Char} (hgap : ¬ opening <:+: gap)
    (hsource : Passes false source) (before rest : List Char) :
    scan (byteLength before) .outside (gap ++ opening ++ source ++ closing ++ rest) =
      around (before ++ gap) source ::
        scan (byteLength (before ++ gap ++ opening ++ source ++ closing)) .outside rest := by
  have hstop : byteLength (before ++ gap ++ opening ++ source ++ closing) =
      byteLength (before ++ gap) + openLength + byteLength source + closeLength := by
    simp only [byteLength_append]
    rfl
  have hbrace : ∀ r, opening ++ (source ++ (closing ++ rest)) ≠ '\x7b' :: r := by
    intro r hr
    exact absurd (List.cons.inj hr).1 (by decide)
  simp only [List.append_assoc gap, List.append_assoc opening, List.append_assoc source]
  rw [scan_gap hgap hbrace, ← byteLength_append, scan_opening, hsource, scan_closing, ← hstop]
  simp only [List.append_nil, List.reverse_reverse, around]

theorem scan_embed {first : List Char} {parts : List (List Char × List Char)}
    (hfirst : ¬ opening <:+: first) (hgaps : ∀ p ∈ parts, ¬ opening <:+: p.2)
    (hsources : ∀ p ∈ parts, Passes false p.1) (before : List Char) :
    scan (byteLength before) .outside (embed first parts) = placed (before ++ first) parts := by
  induction parts generalizing first before with
  | nil =>
    have hs := @scan_gap first [] hfirst (by simp) (byteLength before)
    rw [List.append_nil] at hs
    exact hs
  | cons p parts ih =>
    obtain ⟨source, gap⟩ := p
    have hsource := hsources (source, gap) (List.mem_cons_self ..)
    have hgap := hgaps (source, gap) (List.mem_cons_self ..)
    rw [embed, scan_around hfirst hsource, placed,
      ih hgap (fun q hq => hgaps q (List.mem_cons_of_mem _ hq))
        (fun q hq => hsources q (List.mem_cons_of_mem _ hq))]

theorem length_placed (before : List Char) (parts : List (List Char × List Char)) :
    (placed before parts).length = parts.length := by
  induction parts generalizing before with
  | nil => rfl
  | cons p parts ih => simp only [placed, List.length_cons, ih]

theorem placed_getElem? (before : List Char) (parts : List (List Char × List Char)) (i : Nat) :
    (placed before parts)[i]? = parts[i]?.map fun p => around (embed before (parts.take i)) p.1 := by
  induction parts generalizing before i with
  | nil => rfl
  | cons p parts ih =>
    cases i with
    | zero => rfl
    | succ i =>
      simp only [placed, List.getElem?_cons_succ, ih, List.take_succ_cons, embed, embed_append]

theorem embed_take_append {first : List Char} {parts : List (List Char × List Char)} {i : Nat}
    {source gap : List Char} (h : parts[i]? = some (source, gap)) :
    embed first parts = embed first (parts.take i) ++ opening ++ source ++ closing ++
      embed gap (parts.drop (i + 1)) := by
  induction parts generalizing first i with
  | nil => cases h
  | cons p parts ih =>
    cases i with
    | zero =>
      cases h
      rfl
    | succ i =>
      simp only [List.getElem?_cons_succ] at h
      simp only [List.take_succ_cons, List.drop_succ_cons, embed, ih h, List.append_assoc]

/-- A text made up of gaps without an opening delimiter and of sources between delimiters has one
complete marker for each source, in their order and at their places. -/
theorem markers_embed (first : List Char) (parts : List (List Char × List Char))
    (hfirst : ¬ opening <:+: first) (hgaps : ∀ p ∈ parts, ¬ opening <:+: p.2)
    (hlex : ∀ p ∈ parts, ∃ tokens, Expr.lex p.1 = .ok tokens) :
    (markers (embed first parts)).length = parts.length ∧
    ∀ i source gap, parts[i]? = some (source, gap) → ∃ before after m,
      embed first parts = before ++ opening ++ source ++ closing ++ after ∧
      before = embed first (parts.take i) ∧
      (markers (embed first parts))[i]? = some m ∧
      m = .complete source
        ⟨byteLength before, byteLength (before ++ opening ++ source ++ closing)⟩ ∧
      m.expressionStart = byteLength (before ++ opening) := by
  have hsources : ∀ p ∈ parts, Passes false p.1 := by
    intro p hp
    obtain ⟨tokens, ht⟩ := hlex p hp
    exact .lexFrom ht
  have hm : markers (embed first parts) = placed first parts :=
    scan_embed hfirst hgaps hsources []
  rw [hm]
  refine ⟨length_placed first parts, fun i source gap hi => ?_⟩
  refine ⟨embed first (parts.take i), embed gap (parts.drop (i + 1)), _, embed_take_append hi, rfl,
    ?_, rfl, ?_⟩
  · rw [placed_getElem?, hi]
    rfl
  · exact (byteLength_append _ opening).symm

def trickyParts : List (List Char × List Char) :=
  [(['\'', '\'', '\''] ++ closing ++ opening ++ ['\''], ['\x7d', '$']), ([], ['$', '\x7b'])]

theorem lex_trickyParts : ∀ p ∈ trickyParts, ∃ tokens, Expr.lex p.1 = .ok tokens := by
  intro p hp
  obtain rfl | hp := List.mem_cons.1 hp
  · exact ⟨[⟨.string "'\x7d\x7d$\x7b\x7b", ⟨0, 9⟩⟩], by decide +kernel⟩
  · obtain rfl := List.mem_singleton.1 hp
    exact ⟨[], by decide +kernel⟩

theorem markers_embed_tricky :
    (∀ p ∈ trickyParts, ∃ tokens, Expr.lex p.1 = .ok tokens) ∧
    (∀ p ∈ trickyParts, ¬ opening <:+: p.2) ∧ ¬ opening <:+: ['$'] ∧
    (markers (embed ['$'] trickyParts)).length = 2 :=
  ⟨lex_trickyParts, by decide, by decide,
    (markers_embed ['$'] trickyParts (by decide) (by decide) lex_trickyParts).1⟩

end WorkflowLint.Marker
