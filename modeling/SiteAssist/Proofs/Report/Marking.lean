import SiteAssist.Proofs.Document.Protocol
import SiteAssist.Proofs.Report.Reading
import SiteAssist.Proofs.Report.Replacing
import SiteAssist.Proofs.Text.Lines

/-!
# What an analyser's diagnostic marks

A message of `phpstan` names a line, and its diagnostic marks what stands there after the blanks in front.
The line is found by counting line feeds, and its columns are numbers of characters (`LineAt`).  An open
document counts every kind of line end, and columns in UTF-16 units.

* `LineAt.getElem?_lines`, `getElem?_lines_of_past`: the line that is marked is the one **after so many line
  feeds**, if there is one.
* `prefix_content_iff`: an open document has the line at the start of one of its own, exactly if it is
  `Whole`.
* `LineAt.leads`, `LineAt.of_leads`: the columns lead to the start and the end of the line if, moreover, it
  has no character beyond the basic plane and line feeds alone end the lines above; and only then.
* `analyser_marks`: so **the diagnostics of a report cover the lines** that its messages name exactly then,
  and for a line past the end there is an empty one.
* `analyser_marks_less`: of a line of one character beyond the basic plane nothing is covered.
-/

namespace SiteAssist.Report

open Document (isBreak isReturn splitLines content before offset lineEnds linePrefix?)
open Text (units unitWidth isBlank)

variable {text above line below u s : List Char} {c : Char} {n : Nat}

/-! ## Lines by their line feeds -/

/-- What may come after a line: nothing, a line feed, or a carriage return and a line feed. -/
inductive Ends (line : List Char) : List Char → Prop
  | text : Ends line []
  | feed (h : line.getLast? ≠ some '\r') (rest : List Char) : Ends line ('\n' :: rest)
  | pair (rest : List Char) : Ends line ('\r' :: '\n' :: rest)

/-- The line after that many line feeds, with what is above and below it. -/
structure LineAt (text : List Char) (n : Nat) (above line below : List Char) : Prop where
  text_eq : text = above ++ line ++ below
  opens : above = [] ∨ ∃ u, above = u ++ ['\n']
  count : above.count '\n' = n
  single : '\n' ∉ line
  ends : Ends line below

theorem getElem?_lines_zero (hsingle : '\n' ∉ line) (hends : Ends line below) :
    (Text.lines (line ++ below))[0]?.getD [] = line := by
  cases hends with
  | text =>
    rw [List.append_nil]
    by_cases hne : line = []
    · rw [hne]
      rfl
    · rw [Text.lines_of_notMem hsingle hne]
      rfl
  | feed h rest =>
    rw [Text.lines_append hsingle, Text.dropCarriageReturn, if_neg h]
    rfl
  | pair rest =>
    have hline : '\n' ∉ line ++ ['\r'] := by simpa using hsingle
    have hpair : line ++ '\r' :: '\n' :: rest = (line ++ ['\r']) ++ '\n' :: rest := by simp
    rw [hpair, Text.lines_append hline, Text.dropCarriageReturn, if_pos List.getLast?_concat,
      List.dropLast_concat]
    rfl

/-- The line that a message is taken to name is **the one after so many line feeds**. -/
theorem LineAt.getElem?_lines (h : LineAt text n above line below) :
    (Text.lines text)[n]?.getD [] = line := by
  have hcount := h.count
  rw [h.text_eq, List.append_assoc]
  rcases h.opens with rfl | ⟨u, rfl⟩
  · rw [← hcount, List.nil_append]
    exact getElem?_lines_zero h.single h.ends
  · rw [List.count_append, List.count_singleton_self, ← Text.length_splitOn] at hcount
    rw [List.append_assoc, List.singleton_append, Text.lines_append_cons, ← hcount]
    rw [List.getElem?_append_right (by rw [List.length_map]), List.length_map, Nat.sub_self]
    exact getElem?_lines_zero h.single h.ends

/-- There is such a line for every number of line feeds that the text has. -/
theorem exists_lineAt : ∀ {n : Nat} {text : List Char}, n ≤ text.count '\n' →
    ∃ above line below, LineAt text n above line below := by
  intro n
  induction n with
  | zero =>
    intro text _
    by_cases hmem : '\n' ∈ text
    · obtain ⟨p, rest, rfl, hp⟩ := List.eq_append_cons_of_mem hmem
      by_cases hret : p.getLast? = some '\r'
      · obtain ⟨q, rfl⟩ := List.getLast?_eq_some_iff.mp hret
        exact ⟨[], q, _, by simp, Or.inl rfl, rfl, fun hq => hp (List.mem_append_left _ hq), .pair rest⟩
      · exact ⟨[], p, _, rfl, Or.inl rfl, rfl, hp, .feed hret rest⟩
    · exact ⟨[], text, [], by simp, Or.inl rfl, rfl, hmem, .text⟩
  | succ n ih =>
    intro text hn
    have hmem : '\n' ∈ text := List.count_pos_iff.mp (Nat.lt_of_lt_of_le n.succ_pos hn)
    obtain ⟨p, rest, rfl, hp⟩ := List.eq_append_cons_of_mem hmem
    rw [List.count_append, List.count_eq_zero_of_not_mem hp, Nat.zero_add, List.count_cons_self] at hn
    obtain ⟨above, line, below, h⟩ := ih (Nat.le_of_succ_le_succ hn)
    refine ⟨p ++ '\n' :: above, line, below, by simp [h.text_eq], ?_, ?_, h.single, h.ends⟩
    · rcases h.opens with rfl | ⟨u, rfl⟩
      · exact Or.inr ⟨p, rfl⟩
      · exact Or.inr ⟨p ++ '\n' :: u, by simp⟩
    · rw [List.count_append, List.count_eq_zero_of_not_mem hp, Nat.zero_add, List.count_cons_self, h.count]

/-- **Past the end** there is no line. -/
theorem getElem?_lines_of_past (h : ∀ above line below, ¬LineAt text n above line below) :
    (Text.lines text)[n]? = none := by
  have hpast : text.count '\n' < n := by
    by_contra hle
    obtain ⟨above, line, below, hat⟩ := exists_lineAt (Nat.le_of_not_lt hle)
    exact h above line below hat
  obtain ⟨j, hj⟩ := Text.exists_map_trim_splitOn text
  have hlength := congrArg List.length hj
  rw [List.length_append, List.length_map, List.length_map, Text.length_splitOn] at hlength
  rw [List.getElem?_eq_none_iff]
  omega

/-! ## The line as an open document has it -/

/-- The line stays in one piece: no break stands in it, save that its last character may be one, though
no return. -/
def Whole (line : List Char) : Prop :=
  (∀ c ∈ line.dropLast, isBreak c = false) ∧ ∀ c ∈ line.getLast?, isReturn c = false

instance (line : List Char) : Decidable (Whole line) :=
  @instDecidableAnd _ _ (List.decidableBAll _ _) (Option.decidableForallMem _)

/-- The first line of a document ends with the first break. -/
theorem splitLines_of_break (hu : ∀ d ∈ u, isBreak d = false) (hb : isBreak c = true)
    (hpair : ¬(c = '\r' ∧ s.head? = some '\n')) :
    splitLines (u ++ c :: s) = (u ++ [c]) :: splitLines s := by
  induction u with
  | nil => exact Document.splitLines_break_cons hb hpair
  | cons d u ih =>
    obtain ⟨hd, hu⟩ := List.forall_mem_cons.mp hu
    rw [List.cons_append, Document.splitLines_cons hd (ih hu), List.cons_append]

theorem splitLines_of_unbroken (hu : ∀ d ∈ u, isBreak d = false) {first : List Char}
    {rest : List (List Char)} (h : splitLines s = first :: rest) :
    splitLines (u ++ s) = (u ++ first) :: rest := by
  induction u with
  | nil => exact h
  | cons d u ih =>
    obtain ⟨hd, hu⟩ := List.forall_mem_cons.mp hu
    rw [List.cons_append, Document.splitLines_cons hd (ih hu), List.cons_append]

/-- With a break in it, a line is whole only if the break is its last character, and no return. -/
theorem whole_append_cons_iff (hu : ∀ d ∈ u, isBreak d = false) (hb : isBreak c = true) (v : List Char) :
    Whole (u ++ c :: v) ↔ v = [] ∧ isReturn c = false := by
  constructor
  · rintro ⟨hinner, hlast⟩
    rcases List.eq_nil_or_concat v with rfl | ⟨w, d, rfl⟩
    · exact ⟨rfl, hlast c (by simp)⟩
    · have hmem : c ∈ (u ++ c :: w.concat d).dropLast := by
        rw [List.concat_eq_append, ← List.cons_append, ← List.append_assoc, List.dropLast_concat]
        simp
      rw [hinner c hmem] at hb
      cases hb
  · rintro ⟨rfl, hr⟩
    refine ⟨fun d hd => hu d (by simpa using hd), fun d hd => ?_⟩
    rw [List.getLast?_concat] at hd
    cases hd
    exact hr

/-- A document has **the line at the start of its own** exactly then. -/
theorem prefix_content_iff (hsingle : '\n' ∉ line) (hends : Ends line below) {first : List Char}
    {rest : List (List Char)} (hlines : splitLines (line ++ below) = first :: rest) :
    line <+: content first ↔ Whole line := by
  cases hcut : Text.cutAtFirst? isBreak line with
  | none =>
    have hun := Text.cutAtFirst?_eq_none_iff.mp hcut
    obtain ⟨first', rest', hv⟩ := List.exists_cons_of_ne_nil (Document.splitLines_ne_nil below)
    rw [splitLines_of_unbroken hun hv] at hlines
    cases hlines
    rw [Document.content_append hun]
    refine iff_of_true (List.prefix_append _ _) ⟨fun c hc => hun c (List.dropLast_subset _ hc),
      fun c hc => Document.isReturn_of_not_isBreak (hun c (List.mem_of_mem_getLast? hc))⟩
  | some cut =>
    -- the document's line ends with the first break
    obtain ⟨u, v⟩ := cut
    obtain ⟨c, rfl, hb, hu⟩ := Text.cutAtFirst?_eq_some_iff.mp hcut
    have hpair : ¬(c = '\r' ∧ (v ++ below).head? = some '\n') := by
      rintro ⟨rfl, hhead⟩
      cases v with
      | nil =>
        cases hends with
        | feed h _ => exact h List.getLast?_concat
        | _ => cases hhead
      | cons d v =>
        cases hhead
        exact hsingle (by simp)
    rw [List.append_assoc, List.cons_append, splitLines_of_break hu hb hpair] at hlines
    cases hlines
    rw [whole_append_cons_iff hu hb, Document.content_append hu, List.prefix_append_right_inj]
    cases hr : isReturn c <;> simp [content, hr]

/-! ## Where the columns of a line lead -/

/-- The column of the document's line leads to the end of that start of the line. -/
structure Leads (text : List Char) (p : Position) (above s : List Char) : Prop where
  linePrefix : linePrefix? text p = some s
  offset : offset text p = (above ++ s).length

theorem linePrefix?_append {full rest : List (List Char)} (h : splitLines text = full ++ line :: rest)
    (column : Nat) : linePrefix? text ⟨full.length, column⟩ = some (before line column) := by
  rw [linePrefix?, h]
  simp

/-- The document's lines around what stands above a line. -/
theorem LineAt.exists_splitLines (h : LineAt text n above line below) :
    ∃ full first rest, splitLines text = full ++ first :: rest ∧ full.length = lineEnds above ∧
      full.flatten = above ∧ (∀ l ∈ full, Document.IsFullLine l) ∧
      splitLines (line ++ below) = first :: rest := by
  obtain ⟨first, rest, hv⟩ := List.exists_cons_of_ne_nil (Document.splitLines_ne_nil (line ++ below))
  have hlast : Document.lastLine above = [] := by
    rcases h.opens with rfl | ⟨u, rfl⟩
    · rfl
    · rw [Document.lastLine, List.reverse_append]
      rfl
  have hpair : ¬(above.getLast? = some '\r' ∧ (line ++ below).head? = some '\n') := by
    rcases h.opens with rfl | ⟨u, rfl⟩ <;> simp
  obtain ⟨full, he, hlen, hflat, hfull⟩ := Document.splitLines_append hv hpair
  rw [hlast, List.nil_append, ← List.append_assoc, ← h.text_eq] at he
  rw [hlast, List.append_nil] at hflat
  exact ⟨full, first, rest, he, hlen, hflat, hfull, hv⟩

theorem length_flatten_take_lt {full : List (List Char)} (hfull : ∀ l ∈ full, Document.IsFullLine l)
    (hn : n < full.length) : (full.take n).flatten.length < full.flatten.length := by
  obtain ⟨w, c, hw, _⟩ := hfull full[n] (List.getElem_mem hn)
  have hcut : full = full.take n ++ full[n] :: full.drop (n + 1) := by
    rw [List.getElem_cons_drop, List.take_append_drop]
  conv => rhs; rw [hcut]
  rw [List.flatten_append, List.flatten_cons, hw]
  simp only [List.length_append, List.length_singleton]
  omega

/-- Where no break and no wide character comes in between, the columns **lead to every start of the
line**. -/
theorem LineAt.leads (h : LineAt text n above line below) (hfed : Fed above) (hwhole : Whole line)
    (hnarrow : ∀ c ∈ line, unitWidth c = 1) (hs : s <+: line) : Leads text ⟨n, s.length⟩ above s := by
  obtain ⟨full, first, rest, he, hlen, hflat, _, hlines⟩ := h.exists_splitLines
  have hfull : full.length = n := hlen.trans (hfed.trans h.count)
  have hunits : s.length = units s := Nat.le_antisymm (Document.length_le_units s)
    ((Document.units_le_length_iff s).mpr fun c hc => hnarrow c (hs.subset hc))
  have hbefore : before first s.length = s := by
    rw [hunits]
    exact Document.before_units (hs.trans ((prefix_content_iff h.single h.ends hlines).mpr hwhole))
  rw [← hfull]
  refine ⟨?_, ?_⟩
  · rw [linePrefix?_append he, hbefore]
  · rw [Document.offset_append he, hbefore, hflat, List.length_append]

/-- The columns lead to the end of a line **only then**. -/
theorem LineAt.of_leads (h : LineAt text n above line below)
    (hl : Leads text ⟨n, line.length⟩ above line) :
    Fed above ∧ Whole line ∧ ∀ c ∈ line, unitWidth c = 1 := by
  obtain ⟨full, first, rest, he, hlen, hflat, hfull, hlines⟩ := h.exists_splitLines
  obtain ⟨hline, hoffset⟩ := hl
  obtain ⟨l, hget, hbefore⟩ := Option.map_eq_some_iff.mp hline
  simp only [offset, hget, hbefore, List.length_append, Nat.add_right_cancel_iff] at hoffset
  -- as much text stands above the document's line, so as many line ends
  have hn : full.length = n := by
    refine Nat.le_antisymm (Nat.le_of_not_lt fun hlt => ?_) ?_
    · have hshort := length_flatten_take_lt hfull hlt
      rw [he, List.take_append_of_le_length (Nat.le_of_lt hlt), ← hflat] at hoffset
      omega
    · rw [hlen, ← h.count]
      exact count_le_lineEnds above
  have hfirst : l = first := by
    rw [he, ← hn, List.getElem?_append_right (Nat.le_refl _), Nat.sub_self] at hget
    exact (Option.some.inj hget).symm
  rw [hfirst] at hbefore
  refine ⟨(hlen.symm.trans hn).trans h.count.symm, (prefix_content_iff h.single h.ends hlines).mp ?_,
    (Document.units_le_length_iff line).mp ?_⟩
  · rw [← hbefore]
    exact Document.prefix_before first line.length
  · have hfits := (Document.firstUnits_inUnits (content first) line.length).fits
    rwa [show Document.inUnits line.length (content first) = line from hbefore] at hfits

/-! ## The diagnostics of a report -/

/-- The span covers the line from the first character that is no blank to its end: the document's line
starts are the blanks in front and the whole line, and these are where they stand in the text. -/
def Covers (text : List Char) (span : Span) (above line : List Char) : Prop :=
  Leads text ⟨span.startLine, span.startColumn⟩ above (line.takeWhile isBlank) ∧
    Leads text ⟨span.endLine, span.endColumn⟩ above line

/-- The span marks the line after so many line feeds.  It covers that line if the document has it as it
is, and only then; past the end it is empty. -/
structure Marks (text : List Char) (n : Nat) (span : Span) : Prop where
  covers : ∀ above line below, LineAt text n above line below →
    (Covers text span above line ↔ Fed above ∧ Whole line ∧ ∀ c ∈ line, unitWidth c = 1)
  counts : ∀ above line below, LineAt text n above line below →
    span = ⟨n, (line.takeWhile isBlank).length, n, line.length⟩
  past : (∀ above line below, ¬LineAt text n above line below) → span = ⟨n, 0, n, 0⟩

theorem marks_toDiagnostic (text : List Char) (m : AnalyserMessage) :
    Marks text (m.line.getD 1 - 1) (m.toDiagnostic (Text.lines text)).span := by
  have hspan : ∀ line, (Text.lines text)[m.line.getD 1 - 1]?.getD [] = line →
      (m.toDiagnostic (Text.lines text)).span =
        ⟨m.line.getD 1 - 1, (line.takeWhile isBlank).length, m.line.getD 1 - 1, line.length⟩ := by
    rintro _ rfl
    rfl
  refine ⟨fun above line below h => ?_, fun above line below h => hspan line h.getElem?_lines,
    fun h => hspan [] (by rw [getElem?_lines_of_past h]; rfl)⟩
  rw [hspan line h.getElem?_lines]
  constructor
  · exact fun hcovers => h.of_leads hcovers.2
  · rintro ⟨hfed, hwhole, hnarrow⟩
    exact ⟨h.leads hfed hwhole hnarrow (List.takeWhile_prefix _),
      h.leads hfed hwhole hnarrow (List.prefix_refl _)⟩

/-- **What the diagnostics of a `phpstan` report mark.**  There is one for each message of the file, and it
marks the line that the message names, the first one if it names none. -/
theorem analyser_marks {json file : String} {report : Json} {items : List Json} (text : String)
    (hparse : Json.parse json = .ok report) (hmessages : Messages report file (.array items))
    (hitems : ∀ v ∈ items, ∃ m, AnalyserMessage.Written v m) :
    ∃ ds, analyser json file text = .ok ds ∧
      List.Forall₂ (fun v d => ∃ m, AnalyserMessage.Written v m ∧ d.message = m.message ∧
        Marks text.toList (m.line.getD 1 - 1) d.span) items ds := by
  have hread := readsReport_readMessages (fun _ _ => AnalyserMessage.decode_eq_ok_iff)
    (AnalyserMessage.toDiagnostic (Text.lines text.toList))
  obtain ⟨ms, hms, hrun⟩ := hread.complete json report file items hparse hmessages hitems
  refine ⟨_, hrun, List.forall₂_map_right_iff.mpr (hms.imp fun v m hm => ?_)⟩
  exact ⟨m, hm, rfl, marks_toDiagnostic text.toList m⟩

/-- A report of three messages: for the second line, for none, and for a line that is not there. -/
def threeLines : String :=
  "\x7b\"files\": \x7b\"/a.php\": \x7b\"messages\": [\x7b\"line\": 2, \"message\": \"M\"\x7d,
    \x7b\"message\": \"N\", \"line\": null\x7d, [\"O\", 9]]\x7d\x7d\x7d"

/-- A line that ends in a form feed is covered up to and with that. -/
theorem analyser_marks_feed :
    ∃ ds, analyser threeLines "/a.php" "a\r\n \tb é\x0c" = .ok ds ∧
      ds.map (·.span) = [⟨1, 2, 1, 6⟩, ⟨0, 0, 0, 1⟩, ⟨8, 0, 8, 0⟩] ∧
      Covers "a\r\n \tb é\x0c".toList ⟨1, 2, 1, 6⟩ "a\r\n".toList " \tb é\x0c".toList := by
  have hread : ∃ ms, readMessages AnalyserMessage.decode threeLines "/a.php" = .ok ms ∧ ms ≠ [] := by
    have hlength : ((readMessages AnalyserMessage.decode threeLines "/a.php").toOption.map
        List.length) = some 3 := by decide +kernel
    cases hrun : readMessages AnalyserMessage.decode threeLines "/a.php" with
    | error e =>
      rw [hrun] at hlength
      cases hlength
    | ok ms =>
      rw [hrun] at hlength
      refine ⟨ms, rfl, ?_⟩
      rintro rfl
      cases hlength
  obtain ⟨ms, hrun, hne⟩ := hread
  obtain ⟨report, items, hparse, hmessages, hms⟩ :=
    exists_of_readMessages (fun _ _ => AnalyserMessage.decode_eq_ok_iff) hrun hne
  obtain ⟨ds, hds, hmarks⟩ := analyser_marks "a\r\n \tb é\x0c" hparse hmessages
    (exists_forall₂_iff.mp ⟨ms, hms⟩)
  have hspans : (analyser threeLines "/a.php" "a\r\n \tb é\x0c").toOption.map (·.map (·.span)) =
      some [⟨1, 2, 1, 6⟩, ⟨0, 0, 0, 1⟩, ⟨8, 0, 8, 0⟩] := by decide +kernel
  rw [hds] at hspans
  have hspans := Option.some.inj hspans
  refine ⟨ds, hds, hspans, ?_⟩
  cases hmarks with
  | nil => cases hspans
  | @cons _ d _ _ hd _ =>
    obtain ⟨m, _, _, hm⟩ := hd
    have hspan : d.span = ⟨1, 2, 1, 6⟩ := (List.cons.inj hspans).1
    rw [hspan] at hm
    generalize m.line.getD 1 - 1 = n at hm
    have hn : n = 1 := by
      by_cases h : ∃ above line below, LineAt "a\r\n \tb é\x0c".toList n above line below
      · obtain ⟨above, line, below, h⟩ := h
        exact (congrArg Span.startLine (hm.counts above line below h)).symm
      · cases hm.past fun above line below hat => h ⟨above, line, below, hat⟩
    subst hn
    have hat : LineAt "a\r\n \tb é\x0c".toList 1 "a\r\n".toList " \tb é\x0c".toList [] :=
      ⟨by decide, Or.inr ⟨['a', '\r'], by decide⟩, by decide, by decide, .text⟩
    exact (hm.covers _ _ _ hat).mpr
      ⟨by decide, by decide, (Document.units_le_length_iff _).mp (by decide)⟩

/-- A report of one message, for the first line. -/
def oneLine : String :=
  "\x7b\"files\": \x7b\"/a.php\": \x7b\"messages\": [\x7b\"message\": \"M\", \"line\": 1\x7d]\x7d\x7d\x7d"

/-- **In a line of one wide character** the diagnostic ends before that character is over, and covers
nothing of the line. -/
theorem analyser_marks_less :
    ∃ d, analyser oneLine "/a.php" "😀" = .ok [d] ∧ LineAt "😀".toList 0 [] "😀".toList [] ∧
      d.span = ⟨0, 0, 0, 1⟩ ∧ linePrefix? "😀".toList ⟨d.span.endLine, d.span.endColumn⟩ = some [] := by
  have hrun : (analyser oneLine "/a.php" "😀").toOption =
      some [⟨.error, "M", ⟨0, 0, 0, 1⟩, "Drupal: phpstan"⟩] := by decide +kernel
  cases h : analyser oneLine "/a.php" "😀" with
  | error e =>
    rw [h] at hrun
    cases hrun
  | ok ds =>
    rw [h] at hrun
    exact ⟨_, congrArg _ (Option.some.inj hrun), ⟨by decide, Or.inl rfl, rfl, by decide, .text⟩, rfl,
      by decide⟩

end SiteAssist.Report
