import SiteAssist.Proofs.Offer.Occurrence
import SiteAssist.Proofs.Snippet.Reading

/-!
# The snippets of texts with placeholders

A placeholder is a mark with the word after it.  The placeholders of a text are its matches from left to
right, each as long as it can be (`Matches`), and what the reader of the model collects
(`Matches.placeholderRuns_eq`).

A text with placeholders is offered as a snippet, the text as a literal and an argument for each
placeholder.  The text may hold dollar signs, braces, backslashes and what looks like a tab stop.  It is
escaped twice, for the literal and for the snippet, and **reading takes the second away and leaves the
first** (`read?_literal`).  So the only tab stops are those of the arguments, in their order and each
directly after its placeholder (`Expansion`, `snippet_expands`).
-/

namespace SiteAssist.Offer.Translations

open Snippet (Piece Plain ofText read? read?_text read?_stop)
open Text (isWord)

variable {s : List Char} {ms : List (List Char)}

/-! ## Placeholders -/

/-- The matches of a mark and the word after it: the leftmost first, each as long as it can be, and
none reaching into another. -/
inductive Matches : List Char → List (List Char) → Prop
  | nil : Matches [] []
  /-- it is no mark, or no word comes after it -/
  | skip {c : Char} {s : List Char} {ms : List (List Char)}
      (h : isPlaceholderMark c = true → ∀ d ∈ s.head?, isWord d = false) (rest : Matches s ms) :
      Matches (c :: s) ms
  | found {mark : Char} {word s : List Char} {ms : List (List Char)}
      (hm : isPlaceholderMark mark = true) (hne : word ≠ []) (hw : ∀ c ∈ word, isWord c = true)
      (hend : ∀ d ∈ s.head?, isWord d = false) (rest : Matches s ms) :
      Matches (mark :: (word ++ s)) ((mark :: word) :: ms)

theorem exists_matches (s : List Char) : ∃ ms, Matches s ms := by
  induction hl : s.length using Nat.strong_induction_on generalizing s with
  | _ k ih =>
    cases s with
    | nil => exact ⟨[], .nil⟩
    | cons c s =>
      obtain ⟨ms, hms⟩ := ih s.length (by rw [← hl]; exact Nat.lt_succ_self _) s rfl
      by_cases h : isPlaceholderMark c = true → ∀ d ∈ s.head?, isWord d = false
      · exact ⟨ms, .skip h hms⟩
      · push Not at h
        obtain ⟨hmark, d, hd, hword⟩ := h
        obtain ⟨s, rfl⟩ := List.head?_eq_some_iff.mp hd
        have hlen := (List.dropWhile_suffix (l := d :: s) isWord).length_le
        obtain ⟨ms, hms⟩ := ih ((d :: s).dropWhile isWord).length
          (by rw [← hl, List.length_cons (a := c)]; omega) _ rfl
        have hne : (d :: s).takeWhile isWord ≠ [] := by
          rw [List.takeWhile_cons_of_pos (by simpa using hword)]
          simp
        have hall : ∀ x ∈ (d :: s).takeWhile isWord, isWord x = true := fun x hx =>
          List.mem_takeWhile_imp hx
        have hend : ∀ x ∈ ((d :: s).dropWhile isWord).head?, isWord x = false := by
          intro x hx
          have := List.head?_dropWhile_not isWord (d :: s)
          rw [hx] at this
          simpa using this
        have hfound := Matches.found hmark hne hall hend hms
        rw [List.takeWhile_append_dropWhile] at hfound
        exact ⟨_, hfound⟩

theorem placeholderRuns_cons (c : Char) (s : List Char) :
    placeholderRuns (c :: s) [] = placeholderRuns s (if isPlaceholderMark c then [c] else []) := by
  rw [placeholderRuns, if_neg (by simp)]
  rfl

/-- A word goes on with the placeholder being read. -/
theorem placeholderRuns_append {word : List Char} (hw : ∀ c ∈ word, isWord c = true) (s : List Char) :
    ∀ {open' : List Char}, open' ≠ [] →
      placeholderRuns (word ++ s) open' = placeholderRuns s (word.reverse ++ open') := by
  induction word with
  | nil => intro open' _; rfl
  | cons c word ih =>
    intro open' hne
    have hc := hw c List.mem_cons_self
    rw [List.cons_append, placeholderRuns, if_pos ⟨by simpa using hne, hc⟩,
      ih (fun x hx => hw x (List.mem_cons_of_mem c hx)) (by simp), List.reverse_cons, List.append_assoc]
    rfl

/-- What is no word ends the placeholder being read. -/
theorem placeholderRuns_end (h : ∀ d ∈ s.head?, isWord d = false) (open' : List Char) :
    placeholderRuns s open' =
      (if open'.length > 1 then [open'.reverse] else []) ++ placeholderRuns s [] := by
  cases s with
  | nil => simp [placeholderRuns]
  | cons d s =>
    have hd : isWord d = false := h d rfl
    rw [placeholderRuns_cons, placeholderRuns, if_neg (by simp [hd])]

/-- **The reader collects the matches.** -/
theorem Matches.placeholderRuns_eq (h : Matches s ms) : placeholderRuns s [] = ms := by
  induction h with
  | nil => rfl
  | @skip c s ms hc _ ih =>
    rw [placeholderRuns_cons]
    by_cases hmark : isPlaceholderMark c = true
    · rw [if_pos hmark, placeholderRuns_end (hc hmark), ih]
      rfl
    · rw [if_neg hmark, ih]
  | @found mark word s ms hmark hne hw hend _ ih =>
    have hlen : (word.reverse ++ [mark]).length > 1 := by
      have := List.length_pos_of_ne_nil hne
      simp only [List.length_append, List.length_reverse, List.length_singleton]
      omega
    rw [placeholderRuns_cons, if_pos hmark, placeholderRuns_append hw s (by simp),
      placeholderRuns_end hend, if_pos hlen, ih, List.reverse_append, List.reverse_reverse]
    rfl

theorem matches_placeholderRuns (s : List Char) : Matches s (placeholderRuns s []) := by
  obtain ⟨ms, h⟩ := exists_matches s
  rwa [h.placeholderRuns_eq]

theorem Matches.firstOccurrences (h : Matches s ms) : FirstOccurrences ms (placeholders s) := by
  rw [placeholders, h.placeholderRuns_eq]
  exact firstOccurrences_distinct ms

/-- A placeholder holds nothing that means something in a snippet. -/
theorem Matches.plain (h : Matches s ms) : ∀ p ∈ ms, Plain p := by
  induction h with
  | nil => simp
  | skip _ _ ih => exact ih
  | found hmark _ hw _ _ ih =>
    intro p hp c hc
    rcases List.mem_cons.mp hp with rfl | hp
    · rcases List.mem_cons.mp hc with rfl | hc
      · constructor <;> rintro rfl <;> exact absurd hmark (by decide)
      · have := hw c hc
        constructor <;> rintro rfl <;> exact absurd this (by decide)
    · exact ih p hp c hc

/-! ## The parts of a snippet -/

/-- What stands between a placeholder and its value. -/
def separator : Language → List Char
  | .php => " => ".toList
  | _ => ": ".toList

/-- What opens the arguments. -/
def opening : Language → List Char
  | .php => ", [".toList
  | .twig => "|t(\x7b".toList
  | _ => ", \x7b".toList

/-- What closes the arguments. -/
def closing : Language → List Char
  | .php => "]".toList
  | .twig => "\x7d)".toList
  | _ => "\x7d".toList

theorem snippet_eq (language : Language) (quote : Char) (msgid : List Char) :
    snippet language quote msgid =
      literal quote msgid ++ opening language ++
        List.intercalate [',', ' '] (arguments quote (separator language) 1 (placeholders msgid)) ++
          closing language := by
  cases language <;> rfl

theorem plain_parts (language : Language) :
    Plain (separator language) ∧ Plain (opening language) ∧ Plain (closing language) := by
  cases language <;> decide

/-- A text with backslashes and the quotation mark escaped, character by character. -/
theorem escapeQuoted_eq (quote : Char) (s : List Char) :
    escapeQuoted quote s = s.flatMap fun c => if c = '\\' ∨ c = quote then ['\\', c] else [c] := by
  induction s with
  | nil => rfl
  | cons c s ih =>
    rw [escapeQuoted, ih, List.flatMap_cons]
    split <;> rfl

/-! ## Arguments as pieces -/

/-- One argument: the placeholder in quotation marks, the separator and the tab stop. -/
def argument (quote : Char) (separator : List Char) (n : Nat) (p : List Char) : List Piece :=
  ofText (quote :: (p ++ quote :: separator)) ++ [.stop n]

/-- The arguments of placeholders, counted from a number on. -/
def argumentPieces (quote : Char) (separator : List Char) : Nat → List (List Char) → List Piece
  | _, [] => []
  | n, [p] => argument quote separator n p
  | n, p :: q :: ps =>
    argument quote separator n p ++ ofText [',', ' '] ++ argumentPieces quote separator (n + 1) (q :: ps)

section

variable {quote : Char} {separator : List Char} {ps : List (List Char)}

theorem filterMap_stop?_argument (n : Nat) (p : List Char) :
    (argument quote separator n p).filterMap Piece.stop? = [n] := by
  rw [argument, List.filterMap_append, Snippet.filterMap_stop?_ofText]
  rfl

/-- The tab stops are counted up. -/
theorem filterMap_stop?_argumentPieces (ps : List (List Char)) : ∀ n,
    (argumentPieces quote separator n ps).filterMap Piece.stop? = List.range' n ps.length := by
  induction ps with
  | nil => intro n; rfl
  | cons p ps ih =>
    intro n
    cases ps with
    | nil => exact filterMap_stop?_argument n p
    | cons q ps =>
      rw [argumentPieces, List.filterMap_append, List.filterMap_append, filterMap_stop?_argument,
        Snippet.filterMap_stop?_ofText, ih (n + 1), List.length_cons (a := p), List.range'_succ]
      rfl

/-- Each placeholder has its argument. -/
theorem exists_argument (quote : Char) (separator : List Char) (ps : List (List Char)) : ∀ {n i : Nat} {p : List Char}, ps[i]? = some p →
    ∃ before after, argumentPieces quote separator n ps =
      before ++ (argument quote separator (n + i) p ++ after) := by
  induction ps with
  | nil => intro n i p h; simp at h
  | cons q ps ih =>
    intro n i p h
    cases i with
    | zero =>
      obtain rfl : q = p := by simpa using h
      cases ps with
      | nil => exact ⟨[], [], by simp [argumentPieces]⟩
      | cons r ps =>
        refine ⟨[], ofText [',', ' '] ++ argumentPieces quote separator (n + 1) (r :: ps), ?_⟩
        rw [argumentPieces, List.append_assoc]
        rfl
    | succ i =>
      rw [List.getElem?_cons_succ] at h
      cases ps with
      | nil => simp at h
      | cons r ps =>
        obtain ⟨before, after, heq⟩ := ih (n := n + 1) h
        refine ⟨argument quote separator n q ++ ofText [',', ' '] ++ before, after, ?_⟩
        rw [argumentPieces, heq, List.append_assoc _ before, Nat.add_right_comm, Nat.add_assoc]

theorem read?_argument (hq : quote ≠ '$' ∧ quote ≠ '\\') (hs : Plain separator) {p : List Char}
    (hp : Plain p) (n : Nat) {t : List Char} (ht : ∀ c ∈ t.head?, c.isDigit = false) :
    read? (quote :: p ++ quote :: separator ++ '$' :: (toString n).toList ++ t) =
      (read? t).map (argument quote separator n p ++ ·) := by
  have hplain : Plain (quote :: (p ++ quote :: separator)) := by
    intro c hc
    rw [List.mem_cons, List.mem_append, List.mem_cons] at hc
    rcases hc with rfl | hc | rfl | hc
    · exact hq
    · exact hp c hc
    · exact hq
    · exact hs c hc
  have hsplit : quote :: p ++ quote :: separator ++ '$' :: (toString n).toList ++ t =
      quote :: (p ++ quote :: separator) ++ ('$' :: (toString n).toList ++ t) := by simp
  rw [hsplit, read?_text hplain, read?_stop n ht]
  exact Snippet.map_map_append _ [.stop n] _

/-- The arguments are read as what they are. -/
theorem read?_arguments (hq : quote ≠ '$' ∧ quote ≠ '\\') (hs : Plain separator) {t : List Char}
    (ht : ∀ c ∈ t.head?, c.isDigit = false) : ∀ {ps : List (List Char)}, (∀ p ∈ ps, Plain p) → ∀ n,
      read? (List.intercalate [',', ' '] (arguments quote separator n ps) ++ t) =
        (read? t).map (argumentPieces quote separator n ps ++ ·) := by
  intro ps
  induction ps with
  | nil => intro _ n; simp [arguments, List.intercalate, argumentPieces]
  | cons p ps ih =>
    intro hps n
    have hp := hps p List.mem_cons_self
    cases ps with
    | nil =>
      rw [arguments, arguments, List.intercalate_singleton, read?_argument hq hs hp n ht, argumentPieces]
    | cons q ps =>
      have hne : arguments quote separator (n + 1) (q :: ps) ≠ [] := by simp [arguments]
      have hcomma : ∀ c ∈ ([',', ' '] ++
          (List.intercalate [',', ' '] (arguments quote separator (n + 1) (q :: ps)) ++ t)).head?,
          c.isDigit = false := by
        intro c hc
        obtain rfl : ',' = c := by simpa using hc
        decide
      rw [arguments, List.intercalate_cons_of_ne_nil hne, List.append_assoc, List.append_assoc,
        read?_argument hq hs hp n hcomma, read?_text (by decide : Plain [',', ' ']),
        ih (fun r hr => hps r (List.mem_cons_of_mem p hr)) (n + 1), Snippet.map_map_append,
        Snippet.map_map_append, argumentPieces]

end

/-! ## The whole snippet -/

/-- **The literal is read as it is to stand in the code**: what was escaped for the snippet is as it was,
and what was escaped for the literal stays escaped. -/
theorem read?_literal {quote : Char} (hq : quote ≠ '$' ∧ quote ≠ '\\') (msgid t : List Char) :
    read? (literal quote msgid ++ t) =
      (read? t).map (ofText (quote :: escapeQuoted quote msgid ++ [quote]) ++ ·) := by
  have hplain : Plain [quote] := by simpa [Plain] using hq
  have hsplit : literal quote msgid ++ t =
      [quote] ++ (Snippet.escape (escapeQuoted quote msgid) ++ ([quote] ++ t)) := by simp [literal]
  rw [hsplit, read?_text hplain, Snippet.read?_escape, read?_text hplain, Snippet.map_map_append,
    Snippet.map_map_append]
  simp [ofText]

theorem isDigit_head?_closing (language : Language) :
    ∀ c ∈ (closing language).head?, c.isDigit = false := by
  have hclosing : ∃ d s, closing language = d :: s ∧ d.isDigit = false := by
    cases language <;> exact ⟨_, _, rfl, by decide⟩
  obtain ⟨d, s, hd, hdigit⟩ := hclosing
  intro c hc
  rw [hd] at hc
  exact Option.some.inj hc ▸ hdigit

/-- The pieces of a snippet: the literal, what opens the arguments, the arguments, what closes them. -/
def pieces (language : Language) (quote : Char) (msgid : List Char) : List Piece :=
  ofText (quote :: escapeQuoted quote msgid ++ [quote]) ++ ofText (opening language) ++
    argumentPieces quote (separator language) 1 (placeholders msgid) ++ ofText (closing language)

theorem ne_of_isQuote {quote : Char} (h : LinePrefix.isQuote quote = true) :
    quote ≠ '$' ∧ quote ≠ '\\' := by
  constructor <;> rintro rfl <;> exact absurd h (by decide)

theorem read?_snippet (language : Language) {quote : Char} (hq : LinePrefix.isQuote quote = true)
    (msgid : List Char) :
    read? (snippet language quote msgid) = some (pieces language quote msgid) := by
  obtain ⟨hsep, hopen, hclose⟩ := plain_parts language
  have hq := ne_of_isQuote hq
  have hmatches := matches_placeholderRuns msgid
  have hplain : ∀ p ∈ placeholders msgid, Plain p := fun p hp =>
    hmatches.plain p ((hmatches.firstOccurrences.mem_iff p).mp hp)
  have hend : read? (closing language) = some (ofText (closing language)) := by
    have := read?_text hclose []
    rwa [List.append_nil, Snippet.read?_nil, Option.map_some, List.append_nil] at this
  rw [snippet_eq, List.append_assoc, List.append_assoc, read?_literal hq, read?_text hopen,
    read?_arguments hq hsep (isDigit_head?_closing language) hplain, hend]
  simp [pieces]

/-- What is to hold of the pieces of a snippet, given the placeholders of its text. -/
structure Expansion (language : Language) (quote : Char) (msgid : List Char) (ps : List (List Char))
    (pieces : List Piece) : Prop where
  /-- the tab stops are counted from one, each once -/
  stops : pieces.filterMap Piece.stop? = List.range' 1 ps.length
  /-- each comes directly after its placeholder, quoted, and the separator -/
  placed : ∀ i p, ps[i]? = some p → ∃ before after, pieces =
    before ++ (ofText (quote :: (p ++ quote :: separator language)) ++ .stop (i + 1) :: after)
  /-- before the arguments stands the text between quotation marks, escaped for them alone -/
  quoted : ∃ arguments, pieces =
    ofText (quote :: (msgid.flatMap fun c => if c = '\\' ∨ c = quote then ['\\', c] else [c]) ++
      quote :: opening language) ++ arguments ++ ofText (closing language)

theorem expansion_pieces (language : Language) (quote : Char) (msgid : List Char) :
    Expansion language quote msgid (placeholders msgid) (pieces language quote msgid) where
  stops := by
    simp only [pieces, List.filterMap_append, Snippet.filterMap_stop?_ofText,
      filterMap_stop?_argumentPieces, List.nil_append, List.append_nil]
  placed i p h := by
    obtain ⟨before, after, heq⟩ := exists_argument quote (separator language) _ (n := 1) h
    refine ⟨ofText (quote :: escapeQuoted quote msgid ++ [quote]) ++ ofText (opening language) ++
      before, after ++ ofText (closing language), ?_⟩
    rw [pieces, heq, argument, Nat.add_comm 1 i]
    simp
  quoted := by
    refine ⟨argumentPieces quote (separator language) 1 (placeholders msgid), ?_⟩
    rw [pieces, escapeQuoted_eq]
    simp [ofText]

/-- A text with placeholders is offered as its snippet, where there are calls. -/
theorem completion_eq_withSnippet {language : Language} (hl : language ≠ .yaml) {msgid : String}
    {ms : List (List Char)} (hm : Matches msgid.toList ms) (hne : ms ≠ []) (quote : Char) :
    completion language quote msgid =
      Completion.withSnippet { label := msgid, kind := .text, detail := some "translation" }
        (String.ofList (snippet language quote msgid.toList)) := by
  refine if_neg ?_
  rintro (h | h)
  · obtain ⟨p, hp⟩ := List.exists_mem_of_ne_nil ms hne
    have := (hm.firstOccurrences.mem_iff p).mpr hp
    rw [List.isEmpty_iff.mp h] at this
    exact List.not_mem_nil this
  · exact hl h

/-- **The snippet of a text with placeholders** is read as the text in a literal and the arguments of the
placeholders. -/
theorem snippet_expands {language : Language} (hl : language ≠ .yaml) {quote : Char}
    (hq : LinePrefix.isQuote quote = true) {msgid : String} {ms : List (List Char)}
    (hm : Matches msgid.toList ms) (hne : ms ≠ []) :
    ∃ text pieces ps, (completion language quote msgid).insertText = some text ∧
      (completion language quote msgid).insertFormat = .snippet ∧
      read? text.toList = some pieces ∧ FirstOccurrences ms ps ∧ ps.length = ms.dedup.length ∧
      Expansion language quote msgid.toList ps pieces := by
  rw [completion_eq_withSnippet hl hm hne]
  have hfirst := hm.firstOccurrences
  refine ⟨_, pieces language quote msgid.toList, _, rfl, rfl, ?_, hfirst, hfirst.length_eq,
    expansion_pieces language quote msgid.toList⟩
  rw [String.toList_ofList]
  exact read?_snippet language hq msgid.toList

/-- A text with a quotation mark, what looks like a tab stop, and two placeholders. -/
theorem snippet_expands_tabStop :
    ∃ text pieces ps, (completion .php '\'' "It's $1: @a of @b, @a").insertText = some text ∧
      (completion .php '\'' "It's $1: @a of @b, @a").insertFormat = .snippet ∧
      read? text.toList = some pieces ∧
      FirstOccurrences ["@a".toList, "@b".toList, "@a".toList] ps ∧
      ps.length = ["@a".toList, "@b".toList, "@a".toList].dedup.length ∧
      Expansion .php '\'' "It's $1: @a of @b, @a".toList ps pieces := by
  have hm : Matches "It's $1: @a of @b, @a".toList ["@a".toList, "@b".toList, "@a".toList] := by
    have hruns : placeholderRuns "It's $1: @a of @b, @a".toList [] =
        ["@a".toList, "@b".toList, "@a".toList] := by decide +kernel
    rw [← hruns]
    exact matches_placeholderRuns _
  exact snippet_expands (by decide) (by decide) hm (by decide)

example : (completion .twig '"' "\"$1\" @a").insertText =
    some "\"\\\\\"\\$1\\\\\" @a\"|t(\x7b\"@a\": $1\x7d)" := by decide +kernel

end SiteAssist.Offer.Translations
