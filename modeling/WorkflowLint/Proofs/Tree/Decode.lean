import Mathlib.Data.List.TakeWhile
import WorkflowLint.Expr.Token
import WorkflowLint.Tree.Decode

/-! Scalars that are written for a text, between quotes of either kind and as a block. Decoding them
gives the text back. -/
namespace WorkflowLint

/-! Lines -/

namespace Text

theorem linesFrom_append {line : List Char} (h : '\n' ∉ line) (before rest : List Char) :
    linesFrom before (line ++ rest) = linesFrom (line.reverse ++ before) rest := by
  induction line generalizing before with
  | nil => rfl
  | cons c line ih =>
    rw [List.mem_cons, not_or] at h
    obtain ⟨hc, hline⟩ := h
    rw [List.cons_append, linesFrom, if_neg (Ne.symm hc), ih hline, List.reverse_cons,
      List.append_assoc, List.singleton_append]

theorem dropReturn_eq_self {line : List Char} (h : line.getLast? ≠ some '\r') :
    dropReturn line = line := by
  fun_induction dropReturn line with
  | case1 => rfl
  | case2 => exact absurd rfl h
  | case3 c rest _ ih =>
    cases rest with
    | nil => rfl
    | cons d rest => rw [ih (by rwa [List.getLast?_cons_cons] at h)]

theorem lines_feed {line : List Char} (hfeed : '\n' ∉ line) (hreturn : line.getLast? ≠ some '\r')
    (rest : List Char) : lines (line ++ '\n' :: rest) = line :: lines rest := by
  rw [lines, linesFrom_append hfeed, List.append_nil, linesFrom, if_pos rfl, List.reverse_reverse,
    dropReturn_eq_self hreturn, lines]

theorem lines_single {line : List Char} (hfeed : '\n' ∉ line) (hne : line ≠ []) :
    lines line = [line] := by
  have h := linesFrom_append hfeed [] []
  rw [List.append_nil, List.append_nil] at h
  rw [lines, h, linesFrom, if_neg (by simpa using hne), List.reverse_reverse]

theorem lines_intercalate {ls : List (List Char)} (hfeed : ∀ line ∈ ls, '\n' ∉ line)
    (hreturn : ∀ line ∈ ls, line.getLast? ≠ some '\r') (hlast : ∀ line ∈ ls.getLast?, line ≠ []) :
    lines (['\n'].intercalate ls) = ls := by
  induction ls with
  | nil => rfl
  | cons line rest ih =>
    obtain ⟨hfeedLine, hfeedRest⟩ := List.forall_mem_cons.mp hfeed
    obtain ⟨hreturnLine, hreturnRest⟩ := List.forall_mem_cons.mp hreturn
    cases rest with
    | nil =>
      rw [List.intercalate_singleton]
      exact lines_single hfeedLine (hlast line rfl)
    | cons next rest =>
      rw [List.intercalate_cons_cons, List.append_assoc, List.singleton_append,
        lines_feed hfeedLine hreturnLine, ih hfeedRest hreturnRest hlast]

theorem getLast?_intercalate {separator line : List Char} {ls : List (List Char)}
    (hlast : ls.getLast? = some line) (hne : line ≠ []) :
    (separator.intercalate ls).getLast? = line.getLast? := by
  induction ls with
  | nil => cases hlast
  | cons first rest ih =>
    cases rest with
    | nil =>
      rw [List.getLast?_singleton, Option.some_inj] at hlast
      rw [List.intercalate_singleton, hlast]
    | cons next rest =>
      have hrest := ih hlast
      rw [List.getLast?_eq_some_getLast hne] at hrest ⊢
      rw [List.intercalate_cons_cons, List.getLast?_append, hrest, Option.some_or]

end Text

namespace Tree
open Text

/-! Quotes -/

theorem foldLines_line {text : List Char} (h : '\n' ∉ text) : foldLines text = text := by
  simp [foldLines, h]

theorem unquote_between (quote : Char) (text : List Char) :
    unquote quote (quote :: (text ++ [quote])) = text := by
  simp [unquote]

theorem mergeQuotes_plain {c : Char} (h : c ≠ '\'') (rest : List Char) :
    mergeQuotes (c :: rest) = c :: mergeQuotes rest := by
  rw [mergeQuotes]
  rintro r rfl
  exact absurd rfl h

theorem mergeQuotes_of_not_mem {text : List Char} (h : '\'' ∉ text) : mergeQuotes text = text := by
  induction text with
  | nil => rfl
  | cons c rest ih =>
    rw [List.mem_cons, not_or] at h
    rw [mergeQuotes_plain (Ne.symm h.1), ih h.2]

theorem mergeQuotes_doubleQuotes (text : List Char) :
    mergeQuotes (Expr.Token.doubleQuotes text) = text := by
  induction text with
  | nil => rfl
  | cons c rest ih =>
    by_cases hc : c = '\''
    · rw [Expr.Token.doubleQuotes, if_pos hc, mergeQuotes, ih, hc]
    · rw [Expr.Token.doubleQuotes, if_neg hc, mergeQuotes_plain hc, ih]

def singleQuoted (text : List Char) : List Char :=
  '\'' :: (Expr.Token.doubleQuotes text ++ ['\''])

theorem decodeSingle_singleQuoted {text : List Char} (h : '\n' ∉ text) :
    decodeSingle (singleQuoted text) = text := by
  rw [decodeSingle, singleQuoted, unquote_between, mergeQuotes_doubleQuotes, foldLines_line h]

/-! Escapes -/

theorem unescape_plain {c : Char} (h : c ≠ '\\') (rest : List Char) :
    unescape .no (c :: rest) = c :: unescape .no rest := by
  rw [unescape, if_neg h]

theorem unescape_of_not_mem {text : List Char} (h : '\\' ∉ text) : unescape .no text = text := by
  induction text with
  | nil => rfl
  | cons c rest ih =>
    rw [List.mem_cons, not_or] at h
    rw [unescape_plain (Ne.symm h.1), ih h.2]

def escapeLetter? : Char → Option Char
  | '\\' => some '\\'
  | '"' => some '"'
  | '\n' => some 'n'
  | '\t' => some 't'
  | '\r' => some 'r'
  | '\x00' => some '0'
  | _ => none

def escaped (c : Char) : List Char :=
  match escapeLetter? c with
  | some letter => ['\\', letter]
  | none => [c]

theorem escapeLetter?_eq_some {c letter : Char} (h : escapeLetter? c = some letter) :
    hexLength letter = 0 ∧ escapedChar letter = c ∧ letter ≠ '\n' := by
  unfold escapeLetter? at h
  split at h <;> cases h <;> decide

theorem unescape_escaped (c : Char) (rest : List Char) :
    unescape .no (escaped c ++ rest) = c :: unescape .no rest := by
  unfold escaped
  split
  · next letter hletter =>
    obtain ⟨hlength, hchar, -⟩ := escapeLetter?_eq_some hletter
    rw [List.cons_append, List.singleton_append, unescape, if_pos rfl, unescape,
      if_neg (by omega), hchar]
  · next hnone =>
    refine unescape_plain ?_ rest
    rintro rfl
    cases hnone

theorem unescape_flatMap_escaped (text : List Char) :
    unescape .no (text.flatMap escaped) = text := by
  induction text with
  | nil => rfl
  | cons c rest ih => rw [List.flatMap_cons, unescape_escaped, ih]

theorem feed_not_mem_escaped (c : Char) : '\n' ∉ escaped c := by
  unfold escaped
  split
  · next letter hletter =>
    obtain ⟨-, -, hfeed⟩ := escapeLetter?_eq_some hletter
    simp [Ne.symm hfeed]
  · next hnone =>
    rw [List.mem_singleton]
    rintro rfl
    cases hnone

def doubleQuoted (text : List Char) : List Char := '"' :: (text.flatMap escaped ++ ['"'])

theorem decodeDouble_doubleQuoted (text : List Char) : decodeDouble (doubleQuoted text) = text := by
  have hfeed : '\n' ∉ text.flatMap escaped := by
    rw [List.mem_flatMap]
    rintro ⟨c, -, hc⟩
    exact feed_not_mem_escaped c hc
  rw [decodeDouble, doubleQuoted, unquote_between, foldLines_line hfeed, unescape_flatMap_escaped]

/-! Indentation -/

def indented (indent : Nat) (line : List Char) : List Char := List.replicate indent ' ' ++ line

theorem isBlank_of_mem_spaces {n : Nat} {c : Char} (h : c ∈ List.replicate n ' ') :
    isBlank c = true := by
  rw [List.eq_of_mem_replicate h]
  rfl

theorem byteLength_spaces (n : Nat) : byteLength (List.replicate n ' ') = n := by
  induction n with
  | zero => rfl
  | succ n ih =>
    rw [List.replicate_succ, byteLength, ih]
    exact Nat.add_comm 1 n

theorem isBlankText_indented (indent : Nat) (line : List Char) :
    isBlankText (indented indent line) = isBlankText line := by
  have hspaces : (List.replicate indent ' ').all isBlank = true :=
    List.all_eq_true.mpr fun _ => isBlank_of_mem_spaces
  rw [isBlankText, indented, List.all_append, hspaces, Bool.true_and, isBlankText]

theorem indentOf_indented (indent : Nat) (line : List Char) :
    indentOf (indented indent line) = indent + indentOf line := by
  rw [indentOf, indented, List.takeWhile_append_of_pos fun _ => isBlank_of_mem_spaces,
    byteLength_append, byteLength_spaces, indentOf]

theorem dropBytes_indented (indent : Nat) (line : List Char) :
    dropBytes indent (indented indent line) = line := by
  induction indent with
  | zero => exact dropBytes.eq_1 line
  | succ n ih =>
    have hspace : ' '.utf8Size = 1 := rfl
    rw [indented, List.replicate_succ, List.cons_append, dropBytes, hspace,
      if_pos (Nat.le_add_left 1 n), Nat.add_sub_cancel]
    exact ih

def Flush (line : List Char) : Prop :=
  isBlankText line = false ∧ ∀ c ∈ line.head?, isBlank c = false

instance (line : List Char) : Decidable (Flush line) :=
  decidable_of_iff (isBlankText line = false ∧ line.head?.all (!isBlank ·) = true) <| by
    simp [Flush, Option.all_eq_true]

theorem Flush.indentOf {line : List Char} (h : Flush line) : indentOf line = 0 := by
  cases line with
  | nil => rfl
  | cons c rest => rw [Tree.indentOf, List.takeWhile_cons_of_neg (by simp [h.2 c rfl]), byteLength]

/-- Whatever blank lines there are, a flush line shows how deep all of them are indented. -/
theorem unindent_indented (indent : Nat) {lines : List (List Char)} (h : ∃ line ∈ lines, Flush line) :
    unindent (lines.map (indented indent)) = lines := by
  have hmin : (((lines.map (indented indent)).filter fun line => !isBlankText line).map
      indentOf).min? = some indent := by
    rw [List.min?_eq_some_iff]
    constructor
    -- The flush line has exactly the indentation that was added, and no line has less.
    · obtain ⟨line, hline, hflush⟩ := h
      have hindent : indentOf (indented indent line) = indent := by
        rw [indentOf_indented, hflush.indentOf, Nat.add_zero]
      have hshown : (!isBlankText (indented indent line)) = true := by
        rw [isBlankText_indented, hflush.1]
        rfl
      exact List.mem_map.mpr
        ⟨_, List.mem_filter.mpr ⟨List.mem_map_of_mem hline, hshown⟩, hindent⟩
    · intro n hn
      obtain ⟨_, hline, rfl⟩ := List.mem_map.mp hn
      obtain ⟨line, -, rfl⟩ := List.mem_map.mp (List.mem_filter.mp hline).1
      rw [indentOf_indented]
      exact Nat.le_add_right indent _
  have hdrop : dropBytes indent ∘ indented indent = id := funext (dropBytes_indented indent)
  simp only [unindent, hmin, Option.getD_some, List.map_map, hdrop, List.map_id]

/-! Blocks -/

/-- Lines that a block scalar can hold as they are. -/
structure Holdable (lines : List (List Char)) : Prop where
  feed : ∀ line ∈ lines, '\n' ∉ line
  carriage : ∀ line ∈ lines, line.getLast? ≠ some '\r'
  last : ∀ line ∈ lines.getLast?, line ≠ []
  flush : ∃ line ∈ lines, Flush line

def block (header : List Char) (indent : Nat) (lines : List (List Char)) : List Char :=
  header ++ '\n' :: ['\n'].intercalate (lines.map (indented indent))

theorem joinWith_eq_intercalate (separator : Char) (lines : List (List Char)) :
    joinWith separator lines = [separator].intercalate lines := by
  fun_induction joinWith separator lines with
  | case1 => rfl
  | case2 line => rw [List.intercalate_singleton]
  | case3 line rest hrest ih =>
    obtain ⟨next, rest, rfl⟩ := List.exists_cons_of_ne_nil hrest
    rw [List.intercalate_cons_cons, List.append_assoc, List.singleton_append, ih]

theorem dropFeeds_eq_self {text : List Char} (h : text.getLast? ≠ some '\n') :
    dropFeeds text = text := by
  have hdrop : text.reverse.dropWhile (· = '\n') = text.reverse := by
    rw [← List.head?_reverse] at h
    cases hreverse : text.reverse with
    | nil => rfl
    | cons c rest =>
      rw [hreverse, List.head?_cons] at h
      exact List.dropWhile_cons_of_neg (by simpa using h)
  rw [dropFeeds, hdrop, List.reverse_reverse]

namespace Holdable
variable {lines : List (List Char)}

theorem lines_indented (h : Holdable lines) (indent : Nat) :
    Text.lines (['\n'].intercalate (lines.map (indented indent))) =
      lines.map (indented indent) := by
  refine lines_intercalate ?_ ?_ ?_
  · rw [List.forall_mem_map]
    intro line hline
    simp [indented, h.feed line hline]
  · rw [List.forall_mem_map]
    intro line hline
    have hspace : (List.replicate indent ' ').getLast? ≠ some '\r' := fun hlast =>
      absurd (List.eq_of_mem_replicate (List.mem_of_getLast? hlast)) (by decide)
    have hlast := h.carriage line hline
    rw [indented, List.getLast?_append]
    cases hc : line.getLast? with
    | none => exact hspace
    | some c => rwa [hc] at hlast
  · intro line hline
    rw [List.getLast?_map, Option.mem_def, Option.map_eq_some_iff] at hline
    obtain ⟨line, hline, rfl⟩ := hline
    exact List.append_ne_nil_of_right_ne_nil _ (h.last line hline)

theorem getLast?_ne_feed (h : Holdable lines) :
    (['\n'].intercalate lines).getLast? ≠ some '\n' := by
  cases hlast : lines.getLast? with
  | none =>
    rw [List.getLast?_eq_none_iff.mp hlast]
    decide
  | some line =>
    rw [getLast?_intercalate hlast (h.last line hlast)]
    exact fun hfeed => h.feed line (List.mem_of_getLast? hlast) (List.mem_of_getLast? hfeed)

end Holdable

theorem decodeBlock_block (header : List Char) (indent : Nat) (hfeed : '\n' ∉ header)
    (hreturn : header.getLast? ≠ some '\r') (hliteral : (trimStart header).head? ≠ some '>')
    {lines : List (List Char)} (h : Holdable lines) :
    decodeBlock (block header indent lines) =
      ['\n'].intercalate lines ++ if header.contains '-' then [] else ['\n'] := by
  have hlines : Text.lines (block header indent lines) = header :: lines.map (indented indent) := by
    rw [block, lines_feed hfeed hreturn, h.lines_indented]
  simp only [decodeBlock, hlines, List.headD_cons, List.tail_cons, unindent_indented indent h.flush,
    if_neg hliteral, joinWith_eq_intercalate, dropFeeds_eq_self h.getLast?_ne_feed]
  split
  · rw [List.append_nil]
  · rw [ite_self]

/-- Decoding undoes writing. A text without line feeds comes back from single quotes, any text from
double quotes, and lines that a block can hold from a literal block at any depth, with a line feed
behind them unless the header strips it. -/
theorem decode_written :
    (∀ text, '\n' ∉ text → decodeSingle (singleQuoted text) = text) ∧
    (∀ text, decodeDouble (doubleQuoted text) = text) ∧
    ∀ indent lines, Holdable lines →
      decodeBlock (block ['|', '-'] indent lines) = ['\n'].intercalate lines ∧
      decodeBlock (block ['|'] indent lines) = ['\n'].intercalate lines ++ ['\n'] := by
  refine ⟨fun _ => decodeSingle_singleQuoted, decodeDouble_doubleQuoted, fun indent lines h => ?_⟩
  have hstrip := decodeBlock_block ['|', '-'] indent (by decide) (by decide) (by decide) h
  have hclip := decodeBlock_block ['|'] indent (by decide) (by decide) (by decide) h
  exact ⟨hstrip.trans (List.append_nil _), hclip⟩

def tangledQuotes : List Char := "'é''x'".toList

def tangledLines : List (List Char) := ["  é:".toList, [], " \r ".toList, "ü '#'".toList, ['\t']]

theorem decode_written_tangled : '\n' ∉ tangledQuotes ∧
    decodeSingle "'''é''''x'''".toList = tangledQuotes ∧
    decodeDouble (doubleQuoted "\\\"\n\t\r\x00n\\".toList) = "\\\"\n\t\r\x00n\\".toList ∧
    Holdable tangledLines ∧
    decodeBlock "|-\n     é:\n   \n    \r \n   ü '#'\n   \t".toList =
      "  é:\n\n \r \nü '#'\n\t".toList ∧
    decodeBlock "|\n     é:\n   \n    \r \n   ü '#'\n   \t".toList =
      "  é:\n\n \r \nü '#'\n\t\n".toList := by
  have hline : '\n' ∉ tangledQuotes := by decide
  have hlines : Holdable tangledLines := ⟨by decide, by decide, by decide, by decide⟩
  obtain ⟨hsingle, hdouble, hblock⟩ := decode_written
  obtain ⟨hstrip, hclip⟩ := hblock 3 tangledLines hlines
  exact ⟨hline, hsingle tangledQuotes hline, hdouble _, hlines, hstrip, hclip⟩

end Tree
end WorkflowLint
