import SiteAssist.Proofs.Document.Place
import SiteAssist.Report.Formatting

/-!
# What a formatter's edit replaces

The edit of a formatter goes from the start of a document to the end of its last line.  It finds that end
by counting line feeds, and the characters after the last of them; an open document counts every kind of
line end, and columns in UTF-16 units.

* `length_le_offset_lineEnds`, `length_le_offset_concat`: the positions that **lead to the end of a text**;
  `exists_of_length_le_offset`: there are no others.
* `length_le_offset_endOf`: the edit's own end does, exactly if the text is `Reached`: its last line has
  no character beyond the basic plane, and every line ends in a line feed, save that a break of another kind
  may be the last character of all.
* `formatting_replaces`: the edit makes the document the formatter's output followed by a tail of the old
  text, which is empty exactly then.
* `formatting_leaves_tail`: a document of one character beyond the basic plane keeps it.
-/

namespace SiteAssist.Document

open Text (units unitWidth)

variable {text u : List Char} {c : Char} {column : Nat}

/-! ## Lengths of lines -/

theorem length_le_units (s : List Char) : s.length ≤ units s := by
  induction s with
  | nil => exact Nat.le_refl _
  | cons c s ih =>
    have := unitWidth_pos c
    rw [List.length_cons, units]
    omega

/-- As many units as characters are only in the basic plane. -/
theorem units_le_length_iff (s : List Char) : units s ≤ s.length ↔ ∀ c ∈ s, unitWidth c = 1 := by
  induction s with
  | nil => simp [units]
  | cons c s ih =>
    have hc := unitWidth_pos c
    have hs := length_le_units s
    rw [units, List.length_cons, List.forall_mem_cons, ← ih]
    omega

/-- A column leads past all of a text if it has that many units. -/
theorem length_le_charsInUnits_iff (s : List Char) : ∀ n, s.length ≤ charsInUnits n s ↔ units s ≤ n := by
  induction s with
  | nil => simp [units]
  | cons c s ih =>
    intro n
    rw [charsInUnits, units, List.length_cons]
    split
    · rw [Nat.add_le_add_iff_right, ih]
      omega
    · omega

theorem length_content_le (line : List Char) : (content line).length ≤ line.length := by
  have h := (List.dropWhile_sublist isReturn (l := line.reverse)).length_le
  rwa [List.length_reverse, ← List.length_reverse] at h

theorem length_before_le (line : List Char) (column : Nat) :
    (before line column).length ≤ (content line).length := by
  rw [before, List.length_take]
  exact Nat.min_le_right _ _

/-- What a column leaves of a line: nothing, if the line has no return and no more units. -/
theorem length_le_before_iff {line : List Char} (h : content line = line) (column : Nat) :
    line.length ≤ (before line column).length ↔ units line ≤ column := by
  rw [before, h, List.length_take, ← length_le_charsInUnits_iff]
  omega

theorem content_of_unbroken {l : List Char} (hl : ∀ c ∈ l, isBreak c = false) : content l = l := by
  have hnil : content [] = [] := rfl
  have := content_append hl []
  rwa [hnil, List.append_nil] at this

theorem content_lastLine_concat (u : List Char) (hr : isReturn c = false) :
    content (lastLine u ++ [c]) = lastLine u ++ [c] := by
  rw [content_append fun d hd => isBreak_of_mem_lastLine hd]
  simp [content, hr]

/-! ## Positions at the end of a text -/

/-- The start of a text is before all of it. -/
theorem offset_zero (text : List Char) : offset text ⟨0, 0⟩ = 0 := by
  obtain ⟨line, rest, he⟩ := List.exists_cons_of_ne_nil (splitLines_ne_nil text)
  rw [offset, he]
  simp [before, charsInUnits_zero]

/-- A position in a line of a text. -/
theorem offset_append {full rest : List (List Char)} {line : List Char}
    (h : splitLines text = full ++ line :: rest) (column : Nat) :
    offset text ⟨full.length, column⟩ = full.flatten.length + (before line column).length := by
  rw [offset, h]
  simp

theorem splitLines_eq (text : List Char) :
    ∃ full, splitLines text = full ++ [lastLine text] ∧ full.length = lineEnds text ∧
      full.flatten ++ lastLine text = text ∧ ∀ l ∈ full, IsFullLine l := by
  have := splitLines_append (u := text) (show splitLines [] = [] :: [] from rfl) (by simp)
  rwa [List.append_nil, List.append_nil] at this

/-- After a break that is no return there is one line, and it is empty. -/
theorem splitLines_concat (u : List Char) (hb : isBreak c = true) (hr : isReturn c = false) :
    ∃ full, splitLines (u ++ [c]) = full ++ (lastLine u ++ [c]) :: [[]] ∧ full.length = lineEnds u ∧
      full.flatten ++ lastLine u = u := by
  have hc : ¬([c] : List Char).head? = some '\n' := by
    rintro h
    simp only [List.head?_cons, Option.some.injEq] at h
    simp [h, isReturn] at hr
  have hone : splitLines [c] = [c] :: [[]] := splitLines_break_cons hb (by simp)
  obtain ⟨full, he, hlen, hflat, _⟩ := splitLines_append (u := u) hone fun h => hc h.2
  exact ⟨full, he, hlen, hflat⟩

/-- In the last line, the column **has to pass what stands there**. -/
theorem length_le_offset_lineEnds (text : List Char) (column : Nat) :
    text.length ≤ offset text ⟨lineEnds text, column⟩ ↔ units (lastLine text) ≤ column := by
  obtain ⟨full, he, hlen, hflat, _⟩ := splitLines_eq text
  have hlast : content (lastLine text) = lastLine text :=
    content_of_unbroken fun c hc => isBreak_of_mem_lastLine hc
  have hlength : text.length = full.flatten.length + (lastLine text).length := by
    rw [← List.length_append, hflat]
  rw [← hlen, offset_append he, hlength, Nat.add_le_add_iff_left, length_le_before_iff hlast]

/-- In the line that **the text's own last break** ends, the column has to pass the break. -/
theorem length_le_offset_concat (u : List Char) (hb : isBreak c = true) (hr : isReturn c = false)
    (column : Nat) :
    (u ++ [c]).length ≤ offset (u ++ [c]) ⟨lineEnds u, column⟩ ↔
      units (lastLine u ++ [c]) ≤ column := by
  obtain ⟨full, he, hlen, hflat⟩ := splitLines_concat u hb hr
  have hlength : (u ++ [c]).length = full.flatten.length + (lastLine u ++ [c]).length := by
    rw [← List.length_append, ← List.append_assoc, hflat]
  rw [← hlen, offset_append he, hlength, Nat.add_le_add_iff_left,
    length_le_before_iff (content_lastLine_concat u hr)]

/-- **No other line leads to the end of a text.** -/
theorem exists_of_length_le_offset {line : Nat} (hline : line < lineEnds text)
    (h : text.length ≤ offset text ⟨line, column⟩) :
    ∃ u c, text = u ++ [c] ∧ isBreak c = true ∧ isReturn c = false ∧ lineEnds u = line := by
  obtain ⟨full, he, hlen, hflat, hfull⟩ := splitLines_eq text
  rw [← hlen] at hline
  have hcut : full = full.take line ++ full[line] :: full.drop (line + 1) := by
    rw [List.getElem_cons_drop, List.take_append_drop]
  generalize hl : full[line] = l at hcut
  obtain ⟨w, c, rfl, hb⟩ : IsFullLine l := hfull l (hl ▸ List.getElem_mem hline)
  have hbefore : (full.take line).length = line := List.length_take_of_le (Nat.le_of_lt hline)
  have hlines : splitLines text =
      full.take line ++ (w ++ [c]) :: (full.drop (line + 1) ++ [lastLine text]) := by
    rw [he]
    conv => lhs; rw [hcut]
    rw [List.append_assoc, List.cons_append]
  have htext : text = (full.take line).flatten ++ (w ++ [c]) ++
      ((full.drop (line + 1)).flatten ++ lastLine text) := by
    conv => lhs; rw [← hflat, hcut]
    simp only [List.flatten_append, List.flatten_cons, List.append_assoc]
  have hlength := congrArg List.length htext
  have hoffset := offset_append hlines column
  rw [hbefore] at hoffset
  have hcontent := length_before_le (w ++ [c]) column
  have hshort := length_content_le (w ++ [c])
  simp only [List.length_append, List.length_cons, List.length_nil] at hlength hshort
  have hrest : (full.drop (line + 1)).flatten ++ lastLine text = [] := by
    rw [← List.length_eq_zero_iff, List.length_append]
    omega
  rw [hrest, List.append_nil, ← List.append_assoc] at htext
  have hr : isReturn c = false := by
    rw [← Bool.not_eq_true]
    intro hr
    have : content (w ++ [c]) = content w := by
      simp [content, hr]
    rw [this] at hcontent
    have := length_content_le w
    omega
  refine ⟨_, c, htext, hb, hr, ?_⟩
  -- the line before the empty one at the end is found under two numbers
  obtain ⟨full', he', hlen', _⟩ := splitLines_concat ((full.take line).flatten ++ w) hb hr
  have hdrop : full.drop (line + 1) = [] := by
    by_contra hne
    obtain ⟨l, ls, hls⟩ := List.exists_cons_of_ne_nil hne
    obtain ⟨x, d, rfl, _⟩ : IsFullLine l :=
      hfull l (List.mem_of_mem_drop (hls ▸ List.mem_cons_self))
    rw [hls] at hrest
    simp at hrest
  have hcount := congrArg List.length (hlines.symm.trans (htext ▸ he'))
  rw [hdrop] at hcount
  simp only [List.length_append, List.length_cons, List.length_nil, hbefore] at hcount
  omega

end SiteAssist.Document

namespace SiteAssist.Report

open Document (lineEnds isBreak isReturn offset)
open Text (units unitWidth)

variable {text u : List Char} {c : Char}

/-! ## Lines that end in a line feed -/

theorem lastLine_of_notMem (h : '\n' ∉ text) : lastLine text = text :=
  Document.takeLastWhile_eq_self fun _ hc => decide_eq_true fun e => h (e ▸ hc)

theorem lastLine_feed_cons (text : List Char) : lastLine ('\n' :: text) = lastLine text :=
  Document.takeLastWhile_cons_of_neg (by simp) text

theorem lastLine_cons_of_mem (c : Char) (h : '\n' ∈ text) : lastLine (c :: text) = lastLine text :=
  Document.takeLastWhile_cons_of_mem c h (by simp)

theorem lastLine_concat (u : List Char) (hc : c ≠ '\n') : lastLine (u ++ [c]) = lastLine u ++ [c] := by
  rw [lastLine, List.reverse_append, List.reverse_singleton, List.singleton_append,
    List.takeWhile_cons_of_pos (by simpa using hc), List.reverse_cons]
  rfl

/-- Every line feed ends a line. -/
theorem count_le_lineEnds (text : List Char) : text.count '\n' ≤ lineEnds text := by
  induction text using SiteAssist.Document.lineEnds.induct with
  | case1 => exact Nat.le_refl _
  | case2 cs ih =>
    rw [lineEnds, List.count_cons_of_ne (by decide), List.count_cons_self]
    omega
  | case3 c cs hne hb ih =>
    rw [Document.lineEnds_break_cons hne hb, List.count_cons]
    split <;> omega
  | case4 c cs hne hb ih =>
    have hc : c ≠ '\n' := fun e => hb (e ▸ by decide)
    rwa [Document.lineEnds_cons hb, List.count_cons_of_ne hc]

/-- Line feeds alone end the lines of a text, each by itself or after a carriage return. -/
def Fed (text : List Char) : Prop := lineEnds text = text.count '\n'

instance (text : List Char) : Decidable (Fed text) := inferInstanceAs (Decidable (_ = _))

/-- What follows the last line feed is then what follows the last line end. -/
theorem Fed.lastLine_eq (h : Fed text) : lastLine text = Document.lastLine text := by
  induction text using SiteAssist.Document.lineEnds.induct with
  | case1 => rfl
  | case2 cs ih =>
    rw [Fed, lineEnds, List.count_cons_of_ne (by decide), List.count_cons_self,
      Nat.add_right_cancel_iff] at h
    rw [lastLine_cons_of_mem _ List.mem_cons_self, lastLine_feed_cons,
      Document.lastLine_break_cons (by decide), Document.lastLine_break_cons (by decide), ih h]
  | case3 c cs hne hb ih =>
    have hle := count_le_lineEnds cs
    rw [Fed, Document.lineEnds_break_cons hne hb, List.count_cons] at h
    split at h
    · rename_i hc
      rw [beq_iff_eq] at hc
      subst hc
      rw [lastLine_feed_cons, Document.lastLine_break_cons hb, ih (by rw [Fed]; omega)]
    · omega
  | case4 c cs hne hb ih =>
    have hc : c ≠ '\n' := fun e => hb (e ▸ by decide)
    rw [Fed, Document.lineEnds_cons hb, List.count_cons_of_ne hc] at h
    have hlast := ih h
    by_cases hm : '\n' ∈ cs
    · rw [lastLine_cons_of_mem c hm, hlast,
        Document.lastLine_cons_of_broken c ⟨'\n', hm, by decide⟩]
    · rw [lastLine_of_notMem hm] at hlast
      have hcs : ∀ d ∈ c :: cs, isBreak d = false := by
        intro d hd
        rcases List.mem_cons.mp hd with rfl | hd
        · simpa using hb
        · exact Document.isBreak_of_mem_lastLine (hlast ▸ hd)
      rw [lastLine_of_notMem (by simp [Ne.symm hc, hm]), Document.lastLine_of_unbroken hcs]

/-! ## The end that an edit names -/

/-- The end of a document as a formatter's edit gives it. -/
def endOf (text : List Char) : Position := ⟨text.count '\n', (lastLine text).length⟩

/-- A break that is part of its line's content. -/
def isInner (c : Char) : Bool := isBreak c && !isReturn c

/-- The edit's end is the document's: the last line has no character beyond the basic plane, and
line feeds alone end the lines, save that an inner break may be the last character of all. -/
def Reached (text : List Char) : Prop :=
  (∀ c ∈ lastLine text, unitWidth c = 1) ∧
    (Fed text ∨ text.getLast?.any isInner = true ∧ Fed text.dropLast)

instance (text : List Char) : Decidable (Reached text) :=
  @instDecidableAnd _ _ (List.decidableBAll _ _) inferInstance

theorem ne_feed_of_isReturn (hr : isReturn c = false) : c ≠ '\n' := by
  rintro rfl
  simp [isReturn] at hr

theorem count_concat (u : List Char) (hc : c ≠ '\n') : (u ++ [c]).count '\n' = u.count '\n' := by
  rw [List.count_append, List.count_singleton, if_neg (by simpa using hc), Nat.add_zero]

/-- Where an inner break ends the text and line feeds its other lines, the last line decides. -/
theorem length_le_offset_endOf_concat (hb : isBreak c = true) (hr : isReturn c = false) (hu : Fed u) :
    (u ++ [c]).length ≤ offset (u ++ [c]) (endOf (u ++ [c])) ↔
      ∀ d ∈ lastLine (u ++ [c]), unitWidth d = 1 := by
  have hc := ne_feed_of_isReturn hr
  have hlast : lastLine (u ++ [c]) = Document.lastLine u ++ [c] := by
    rw [lastLine_concat u hc, hu.lastLine_eq]
  have hend : endOf (u ++ [c]) = ⟨lineEnds u, (Document.lastLine u ++ [c]).length⟩ := by
    rw [endOf, hlast, count_concat u hc, ← hu]
  rw [hend, Document.length_le_offset_concat u hb hr, Document.units_le_length_iff, hlast]

/-- **The edit's end leads to the end of the text** if that is reached, and only then. -/
theorem length_le_offset_endOf (text : List Char) :
    text.length ≤ offset text (endOf text) ↔ Reached text := by
  by_cases hfed : Fed text
  · have hend : endOf text = ⟨lineEnds text, (Document.lastLine text).length⟩ := by
      rw [endOf, hfed.lastLine_eq, ← hfed]
    rw [hend, Document.length_le_offset_lineEnds, Document.units_le_length_iff, ← hfed.lastLine_eq]
    exact ⟨fun h => ⟨h, Or.inl hfed⟩, fun h => h.1⟩
  · constructor
    · intro h
      have hlt : text.count '\n' < lineEnds text :=
        Nat.lt_of_le_of_ne (count_le_lineEnds text) fun e => hfed e.symm
      obtain ⟨u, c, rfl, hb, hr, hends⟩ := Document.exists_of_length_le_offset hlt h
      have hu : Fed u := hends.trans (count_concat u (ne_feed_of_isReturn hr))
      refine ⟨(length_le_offset_endOf_concat hb hr hu).mp h, Or.inr ⟨?_, ?_⟩⟩
      · simp [isInner, hb, hr]
      · rwa [List.dropLast_concat]
    · rintro ⟨hwidth, h | ⟨hinner, hu⟩⟩
      · exact absurd h hfed
      · obtain ⟨c, hlast, hc⟩ := (Option.any_eq_true _ _).mp hinner
        obtain ⟨u, rfl⟩ := List.getLast?_eq_some_iff.mp hlast
        rw [List.dropLast_concat] at hu
        obtain ⟨hb, hr⟩ := Bool.and_eq_true_iff.mp hc
        exact (length_le_offset_endOf_concat hb (by simpa using hr) hu).mpr hwidth

/-! ## The document after the edit -/

/-- A document with a stretch of it replaced. -/
def Replacement.applied (r : Replacement) (d : Document) : Document :=
  d.edited ⟨r.span.startLine, r.span.startColumn⟩ ⟨r.span.endLine, r.span.endColumn⟩ r.newText

theorem formatting?_eq_none_iff (original formatted : String) :
    formatting? original formatted = none ↔ formatted = "" ∨ formatted = original := by
  rw [formatting?]
  split
  · rename_i h
    simpa [eq_comm (a := formatted) (b := original)] using h
  · rename_i h
    simpa [eq_comm (a := formatted) (b := original)] using h

/-- An edit from the start to the edit's end leaves what comes after that end. -/
theorem edit_endOf (text new : List Char) :
    Document.edit text ⟨0, 0⟩ (endOf text) new = new ++ text.drop (offset text (endOf text)) := by
  rw [Document.edit]
  simp only [Document.offset_zero, Nat.zero_max, List.take_zero, List.nil_append]

theorem applied_formatting? {original formatted : String} {r : Replacement}
    (h : formatting? original formatted = some r) (languageId : String) :
    r.applied (.opened original languageId) =
      ⟨formatted.toList ++ original.toList.drop (offset original.toList (endOf original.toList)),
        .ofId languageId⟩ := by
  rw [formatting?] at h
  split at h
  · cases h
  · cases h
    exact congrArg (Document.mk · _) (edit_endOf original.toList formatted.toList)

/-- **What a formatter's edit makes of a document.**  There is an edit unless nothing was printed or
nothing changed.  It puts what was printed in place of the text but for a tail of it; no tail is left
exactly if the edit's end is the document's. -/
theorem formatting_replaces (original formatted languageId : String) :
    (formatting? original formatted = none ↔ formatted = "" ∨ formatted = original) ∧
      ∀ r, formatting? original formatted = some r →
        (∃ tail, tail <:+ original.toList ∧
          r.applied (.opened original languageId) =
            ⟨formatted.toList ++ tail, .ofId languageId⟩) ∧
        ((r.applied (.opened original languageId)).text = formatted.toList ↔
          Reached original.toList) := by
  refine ⟨formatting?_eq_none_iff original formatted, fun r hr => ?_⟩
  have happlied := applied_formatting? hr languageId
  refine ⟨⟨_, List.drop_suffix _ _, happlied⟩, ?_⟩
  rw [happlied, ← length_le_offset_endOf, List.append_right_eq_self, List.drop_eq_nil_iff]

/-- Two kinds of line ends, a pair of units in the first line and a break at the very end. -/
theorem formatting_replaces_mixed :
    ∃ r, formatting? "a😀\r\nb\x0c" "x\n" = some r ∧
      (r.applied (.opened "a😀\r\nb\x0c" "php")).text = "x\n".toList := by
  have hreached : Reached "a😀\r\nb\x0c".toList := by decide
  obtain ⟨hnone, hsome⟩ := formatting_replaces "a😀\r\nb\x0c" "x\n" "php"
  cases h : formatting? "a😀\r\nb\x0c" "x\n" with
  | none => exact absurd (hnone.mp h) (by decide)
  | some r => exact ⟨r, rfl, (hsome r h).2.mpr hreached⟩

/-- **A pair of units in the last line** is counted as one, and the edit leaves the character. -/
theorem formatting_leaves_tail :
    ∃ r, formatting? "😀" "a" = some r ∧
      (r.applied (.opened "😀" "php")).text = "a😀".toList ∧ "a😀".toList ≠ "a".toList := by
  refine ⟨⟨⟨0, 0, 0, 1⟩, "a"⟩, by decide, by decide, by decide⟩

end SiteAssist.Report
