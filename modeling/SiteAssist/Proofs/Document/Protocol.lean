import SiteAssist.Proofs.Document.Column

/-!
# Positions as the protocol counts them

The protocol ends a line at a carriage return, a line feed, or the two together (`lineFrom?`), and counts
columns in UTF-16 units, a column past the end meaning the end and one inside a pair the start of it
(`FirstUnits`).  A document has five more breaks.  One of those before a position moves the line elsewhere, or
ends it too early; only where it stands right before the position nothing of the line is left to miss.

* `overBefore_of_lineFrom?`: a line of the document ends **before any later line of the protocol starts**.
* `meets_firstLine`, `partsAt?_of_lineFrom?`: the place that the server takes a position for is **the
  protocol's or one before it**, and it is the protocol's exactly if returns alone end the lines up to there.
* `positions_protocol`: the same of what stands before the cursor and of an insertion there.
* `tab_taken_for_end`: a vertical tab in the line is one break too many.
-/

namespace SiteAssist.Document

open Text (units unitWidth)

/-! ## The protocol -/

/-- What stands above a line, and what from its start on. -/
def lineFrom? : Nat → List Char → Option (List Char × List Char)
  | 0, text => some ([], text)
  | _ + 1, [] => none
  | n + 1, '\r' :: '\n' :: cs =>
    (lineFrom? n cs).map fun (above, rest) => ('\r' :: '\n' :: above, rest)
  | n + 1, c :: cs =>
    (lineFrom? (if isReturn c then n else n + 1) cs).map fun (above, rest) => (c :: above, rest)

/-- The first units of a line: the longest start of it that has no more of them. -/
structure FirstUnits (column : Nat) (line u : List Char) : Prop where
  isStart : u <+: line
  fits : units u ≤ column
  longest : ∀ v, v <+: line → units v ≤ column → v <+: u

/-- Returns alone are the breaks of a text, save that its last character may be any. -/
def ReturnsOnly (s : List Char) : Prop := ∀ c ∈ s.dropLast, isBreak c = true → isReturn c = true

instance (s : List Char) : Decidable (ReturnsOnly s) := List.decidableBAll _ _

variable {text a s u cs above rest : List Char} {c : Char} {p : Position} {n column : Nat}

/-! ## Columns -/

/-- The units of a line up to a column, as the server counts them. -/
def inUnits (column : Nat) (line : List Char) : List Char := line.take (charsInUnits column line)

theorem inUnits_cons (column : Nat) (c : Char) (cs : List Char) :
    inUnits column (c :: cs) =
      if unitWidth c ≤ column then c :: inUnits (column - unitWidth c) cs else [] := by
  rw [inUnits, charsInUnits]
  split <;> rfl

theorem firstUnits_inUnits (line : List Char) : ∀ column, FirstUnits column line (inUnits column line) := by
  induction line with
  | nil => exact fun column => ⟨List.prefix_refl _, Nat.zero_le column, fun v hv _ => hv⟩
  | cons c cs ih =>
    intro column
    refine ⟨List.take_prefix _ _, ?_, fun v hv hfits => ?_⟩
    · rw [inUnits_cons]
      split
      · have := (ih (column - unitWidth c)).fits
        rw [units]
        omega
      · exact Nat.zero_le column
    · cases v with
      | nil => exact List.nil_prefix
      | cons d v =>
        obtain ⟨rfl, hcs⟩ := List.cons_prefix_cons.mp hv
        rw [units] at hfits
        rw [inUnits_cons, if_pos (by omega)]
        exact List.cons_prefix_cons.mpr ⟨rfl, (ih (column - unitWidth d)).longest v hcs (by omega)⟩

theorem FirstUnits.eq {line : List Char} (hu : FirstUnits column line u) (hs : FirstUnits column line s) :
    u = s := by
  have hle := hs.longest u hu.isStart hu.fits
  exact hle.eq_of_length (hle.length_le.antisymm (hu.longest s hs.isStart hs.fits).length_le)

/-! ## Breaks that are no returns -/

theorem isBreak_of_isReturn (h : isReturn c = true) : isBreak c = true := by
  rw [isReturn, Bool.or_eq_true, beq_iff_eq, beq_iff_eq] at h
  rcases h with rfl | rfl <;> decide

theorem isReturn_of_not_isBreak (h : isBreak c = false) : isReturn c = false := by
  cases hr : isReturn c with
  | true => rw [isBreak_of_isReturn hr] at h; cases h
  | false => rfl

theorem returnsOnly_nil : ReturnsOnly [] := by simp [ReturnsOnly]

theorem returnsOnly_cons_iff (h : isBreak c = true → isReturn c = true) :
    ReturnsOnly (c :: s) ↔ ReturnsOnly s := by
  cases s with
  | nil => simp [ReturnsOnly]
  | cons d s =>
    rw [ReturnsOnly, List.dropLast_cons_of_ne_nil (List.cons_ne_nil d s), List.forall_mem_cons,
      and_iff_right h]
    rfl

theorem returnsOnly_cons_of_inner (hb : isBreak c = true) (hr : isReturn c = false) :
    ReturnsOnly (c :: s) ↔ s = [] := by
  cases s with
  | nil => simp [ReturnsOnly]
  | cons d s =>
    rw [ReturnsOnly, List.dropLast_cons_of_ne_nil (List.cons_ne_nil d s), List.forall_mem_cons, hr]
    simp [hb]

/-- What the server takes to stand above and on the line up to a place is what the protocol does, if
returns alone part that, and else it is less. -/
def Meets (taken place : List Char × List Char) : Prop :=
  (ReturnsOnly (place.1 ++ place.2) ∧ taken = place) ∨
    (¬ReturnsOnly (place.1 ++ place.2) ∧ (taken.1 ++ taken.2).length < (place.1 ++ place.2).length)

theorem meets_nil : Meets ([], []) ([], []) := .inl ⟨returnsOnly_nil, rfl⟩

theorem Meets.cons_above (h : Meets (a, s) (above, u)) (hc : isBreak c = true → isReturn c = true) :
    Meets (c :: a, s) (c :: above, u) := by
  rcases h with ⟨hu, he⟩ | ⟨hu, hlt⟩
  · cases he
    exact .inl ⟨(returnsOnly_cons_iff hc).mpr hu, rfl⟩
  · exact .inr ⟨mt (returnsOnly_cons_iff hc).mp hu, Nat.succ_lt_succ hlt⟩

theorem Meets.cons_line (h : Meets ([], s) ([], u)) (hc : isBreak c = true → isReturn c = true) :
    Meets ([], c :: s) ([], c :: u) := by
  rcases h with ⟨hu, he⟩ | ⟨hu, hlt⟩
  · cases he
    exact .inl ⟨(returnsOnly_cons_iff hc).mpr hu, rfl⟩
  · exact .inr ⟨mt (returnsOnly_cons_iff hc).mp hu, Nat.succ_lt_succ hlt⟩

theorem meets_of_inner (hb : isBreak c = true) (hr : isReturn c = false) (u : List Char) :
    Meets ([], [c]) ([], c :: u) := by
  cases u with
  | nil => exact .inl ⟨(returnsOnly_cons_of_inner hb hr).mpr rfl, rfl⟩
  | cons d u =>
    refine .inr ⟨fun h => ?_, by simp⟩
    exact List.cons_ne_nil d u ((returnsOnly_cons_of_inner hb hr).mp h)

/-! ## The first line -/

theorem content_cons (hr : isReturn c = false) (line : List Char) :
    content (c :: line) = c :: content line := by
  rw [content, content, List.reverse_cons, List.dropWhile_append]
  split
  · rename_i h
    rw [List.isEmpty_iff.mp h, List.dropWhile_cons_of_neg (by simp [hr])]
    rfl
  · rw [List.reverse_append]
    rfl

theorem before_cons (hr : isReturn c = false) (line : List Char) (column : Nat) :
    before (c :: line) column =
      if unitWidth c ≤ column then c :: before line (column - unitWidth c) else [] := by
  have hbefore : ∀ line column, before line column = inUnits column (content line) := fun _ _ => rfl
  rw [hbefore, content_cons hr, inUnits_cons, hbefore]

theorem before_of_returns {line : List Char} (h : ∀ c ∈ line, isReturn c = true) (column : Nat) :
    before line column = [] := by
  have hcontent : content line = [] := by
    rw [content, List.dropWhile_eq_nil_iff.mpr fun c hc => h c (List.mem_reverse.mp hc)]
    rfl
  rw [before, hcontent]
  rfl

/-- A line of the protocol, without the returns that end it. -/
def unended (text : List Char) : List Char := text.takeWhile (!isReturn ·)

theorem unended_cons_of_return (hr : isReturn c = true) (cs : List Char) : unended (c :: cs) = [] :=
  List.takeWhile_cons_of_neg (by simp [hr])

theorem unended_cons (hr : isReturn c = false) (cs : List Char) : unended (c :: cs) = c :: unended cs :=
  List.takeWhile_cons_of_pos (by simp [hr])

/-- **In the first line** a column leads to the protocol's place, or to the end of a line that is too
short. -/
theorem meets_firstLine {line : List Char} {lines : List (List Char)}
    (h : splitLines text = line :: lines) (column : Nat) :
    Meets ([], before line column) ([], inUnits column (unended text)) := by
  induction text using splitLines.induct generalizing line lines column with
  | case1 =>
    cases h
    exact meets_nil
  | case2 cs _ =>
    rw [splitLines_crlf, List.cons.injEq] at h
    rw [← h.1, before_of_returns (by simp [isReturn]), unended_cons_of_return (by decide)]
    exact meets_nil
  | case3 c cs hne hb _ =>
    rw [splitLines_break hb hne, List.cons.injEq] at h
    cases hr : isReturn c with
    | true =>
      rw [← h.1, before_of_returns (by simpa using hr), unended_cons_of_return hr]
      exact meets_nil
    | false =>
      rw [← h.1, before_cons hr, unended_cons hr, inUnits_cons]
      split
      · exact meets_of_inner hb hr _
      · exact meets_nil
  | case4 c cs hne hb he => exact absurd he (splitLines_ne_nil cs)
  | case5 c cs hne hb line' lines' he ih =>
    rw [Bool.not_eq_true] at hb
    rw [splitLines_cons hb he, List.cons.injEq] at h
    rw [← h.1, before_cons (isReturn_of_not_isBreak hb), unended_cons (isReturn_of_not_isBreak hb),
      inUnits_cons]
    split
    · exact (ih he _).cons_line (by simp [hb])
    · exact meets_nil

/-! ## Further lines -/

/-- What the server takes to stand above a line and on it up to a column. -/
def partsAt? (text : List Char) (n column : Nat) : Option (List Char × List Char) :=
  (splitLines text)[n]?.map fun line => (((splitLines text).take n).flatten, before line column)

theorem linePrefix?_eq (text : List Char) (p : Position) :
    linePrefix? text p = (partsAt? text p.line p.column).map Prod.snd := by
  rw [linePrefix?, partsAt?, Option.map_map]
  rfl

theorem offset_of_partsAt? (h : partsAt? text p.line p.column = some (above, s)) :
    offset text p = (above ++ s).length := by
  obtain ⟨line, hline, he⟩ := Option.map_eq_some_iff.mp h
  obtain ⟨rfl, rfl⟩ := Prod.mk.inj he
  simp only [offset, hline, List.length_append]

theorem partsAt?_zero {line : List Char} {lines : List (List Char)} (h : splitLines text = line :: lines)
    (column : Nat) : partsAt? text 0 column = some ([], before line column) := by
  rw [partsAt?, h]
  rfl

/-- A line end at the front is one line more above. -/
theorem partsAt?_succ {first : List Char} (h : splitLines text = first :: splitLines cs) (n column : Nat) :
    partsAt? text (n + 1) column = (partsAt? cs n column).map fun (a, s) => (first ++ a, s) := by
  rw [partsAt?, partsAt?, h, List.getElem?_cons_succ, List.take_succ_cons, List.flatten_cons, Option.map_map]
  rfl

theorem partsAt?_cons (hb : isBreak c = false) (cs : List Char) (n column : Nat) :
    partsAt? (c :: cs) (n + 1) column = (partsAt? cs (n + 1) column).map fun (a, s) => (c :: a, s) := by
  obtain ⟨line, lines, he⟩ := List.exists_cons_of_ne_nil (splitLines_ne_nil cs)
  rw [partsAt?, partsAt?, splitLines_cons hb he, he, List.getElem?_cons_succ, List.getElem?_cons_succ,
    List.take_succ_cons, List.take_succ_cons, Option.map_map]
  rfl

/-! ## Lines of the protocol -/

theorem lineFrom?_crlf (h : lineFrom? (n + 1) ('\r' :: '\n' :: cs) = some (above, rest)) :
    ∃ above', lineFrom? n cs = some (above', rest) ∧ above = '\r' :: '\n' :: above' := by
  obtain ⟨⟨above', _⟩, h', he⟩ := Option.map_eq_some_iff.mp h
  cases he
  exact ⟨above', h', rfl⟩

theorem lineFrom?_cons (hne : ∀ t, c = '\r' → cs = '\n' :: t → False)
    (h : lineFrom? (n + 1) (c :: cs) = some (above, rest)) :
    ∃ above', lineFrom? (if isReturn c then n else n + 1) cs = some (above', rest) ∧ above = c :: above' := by
  rw [lineFrom?] at h
  · obtain ⟨⟨above', _⟩, h', he⟩ := Option.map_eq_some_iff.mp h
    cases he
    exact ⟨above', h', rfl⟩
  · exact hne

theorem append_of_lineFrom? (h : lineFrom? n text = some (above, rest)) : above ++ rest = text := by
  induction n, text using lineFrom?.induct generalizing above with
  | case1 text =>
    rw [lineFrom?] at h
    cases h
    rfl
  | case2 n => cases h
  | case3 n cs ih =>
    obtain ⟨above', h', rfl⟩ := lineFrom?_crlf h
    rw [List.cons_append, List.cons_append, ih h']
  | case4 n c cs hne ih =>
    obtain ⟨above', h', rfl⟩ := lineFrom?_cons hne h
    rw [List.cons_append, ih h']

/-- A line of the server is over before a place, `k` characters from the start. -/
def OverBefore (text : List Char) (m k : Nat) : Prop :=
  ∃ line, (splitLines text)[m]? = some line ∧
    ((splitLines text).take m).flatten.length + (content line).length < k

theorem overBefore_zero {line : List Char} {lines : List (List Char)} {k : Nat}
    (h : splitLines text = line :: lines) (hk : (content line).length < k) : OverBefore text 0 k := by
  refine ⟨line, by rw [h]; rfl, ?_⟩
  rw [List.take_zero, List.flatten_nil, List.length_nil, Nat.zero_add]
  exact hk

theorem OverBefore.succ {first : List Char} {m k : Nat} (h : OverBefore cs m k)
    (hs : splitLines text = first :: splitLines cs) : OverBefore text (m + 1) (k + first.length) := by
  obtain ⟨line, hline, hk⟩ := h
  refine ⟨line, by rw [hs]; exact hline, ?_⟩
  rw [hs, List.take_succ_cons, List.flatten_cons, List.length_append]
  omega

theorem OverBefore.cons {m k : Nat} (h : OverBefore cs m k) (hb : isBreak c = false) :
    OverBefore (c :: cs) m (k + 1) := by
  obtain ⟨first, lines, he⟩ := List.exists_cons_of_ne_nil (splitLines_ne_nil cs)
  obtain ⟨line, hline, hk⟩ := h
  rw [he] at hline hk
  cases m with
  | zero =>
    cases hline
    refine overBefore_zero (splitLines_cons hb he) ?_
    rw [content_cons (isReturn_of_not_isBreak hb), List.length_cons]
    simpa using hk
  | succ m =>
    refine ⟨line, by rw [splitLines_cons hb he]; exact hline, ?_⟩
    rw [splitLines_cons hb he, List.take_succ_cons, List.flatten_cons, List.cons_append, List.length_cons]
    rw [List.take_succ_cons, List.flatten_cons] at hk
    omega

theorem OverBefore.exists_partsAt? {m k : Nat} (h : OverBefore text m k) (column : Nat) :
    ∃ a s, partsAt? text m column = some (a, s) ∧ (a ++ s).length < k := by
  obtain ⟨line, hline, hk⟩ := h
  refine ⟨_, _, by rw [partsAt?, hline]; rfl, ?_⟩
  have := (prefix_before line column).length_le
  rw [List.length_append]
  omega

/-- A line of the server is over **before any later line of the protocol starts**. -/
theorem overBefore_of_lineFrom? {m : Nat} (h : lineFrom? (n + 1) text = some (above, rest)) (hm : m ≤ n) :
    OverBefore text m above.length := by
  induction text using splitLines.induct generalizing n m above with
  | case1 => cases h
  | case2 cs ih =>
    obtain ⟨above', h', rfl⟩ := lineFrom?_crlf h
    cases m with
    | zero => exact overBefore_zero (splitLines_crlf cs) (Nat.succ_pos _)
    | succ m =>
      obtain ⟨k, rfl⟩ : ∃ k, n = k + 1 := ⟨n - 1, by omega⟩
      exact (ih h' (by omega)).succ (splitLines_crlf cs)
  | case3 c cs hne hb ih =>
    obtain ⟨above', h', rfl⟩ := lineFrom?_cons hne h
    have hs := splitLines_break hb hne
    cases hr : isReturn c with
    | true =>
      rw [if_pos hr] at h'
      cases m with
      | zero =>
        refine overBefore_zero hs ?_
        rw [content, List.dropWhile_eq_nil_iff.mpr (by simpa using hr)]
        exact Nat.succ_pos _
      | succ m =>
        obtain ⟨k, rfl⟩ : ∃ k, n = k + 1 := ⟨n - 1, by omega⟩
        exact (ih h' (by omega)).succ hs
    | false =>
      rw [if_neg (by simp [hr])] at h'
      cases m with
      | zero =>
        -- the protocol's line is not over at `c`, so there is more above the next one
        obtain ⟨_, _, hlt⟩ := ih h' (Nat.zero_le n)
        refine overBefore_zero hs ?_
        have := (prefix_content [c]).length_le
        rw [List.length_singleton] at this
        rw [List.length_cons]
        omega
      | succ m => exact (ih h' (by omega)).succ hs
  | case4 c cs hne hb he => exact absurd he (splitLines_ne_nil cs)
  | case5 c cs hne hb line lines he ih =>
    rw [Bool.not_eq_true] at hb
    obtain ⟨above', h', rfl⟩ := lineFrom?_cons hne h
    rw [if_neg (by simp [isReturn_of_not_isBreak hb])] at h'
    exact (ih h' hm).cons hb

/-- The server takes a position for **the protocol's place or one before it**. -/
theorem partsAt?_of_lineFrom? (h : lineFrom? n text = some (above, rest)) (column : Nat) :
    ∃ a s, partsAt? text n column = some (a, s) ∧ Meets (a, s) (above, inUnits column (unended rest)) := by
  induction n, text using lineFrom?.induct generalizing above with
  | case1 cs =>
    rw [lineFrom?] at h
    cases h
    obtain ⟨line, lines, he⟩ := List.exists_cons_of_ne_nil (splitLines_ne_nil rest)
    exact ⟨[], _, partsAt?_zero he column, meets_firstLine he column⟩
  | case2 n => cases h
  | case3 n cs ih =>
    obtain ⟨above', h', rfl⟩ := lineFrom?_crlf h
    obtain ⟨a, s, hp, hm⟩ := ih h'
    refine ⟨_, s, by rw [partsAt?_succ (splitLines_crlf cs), hp]; rfl, ?_⟩
    exact (hm.cons_above (by decide)).cons_above (by decide)
  | case4 n c cs hne ih =>
    obtain ⟨above', h', rfl⟩ := lineFrom?_cons hne h
    cases hb : isBreak c with
    | false =>
      rw [if_neg (by simp [isReturn_of_not_isBreak hb])] at h' ih
      obtain ⟨a, s, hp, hm⟩ := ih h'
      exact ⟨c :: a, s, by rw [partsAt?_cons hb, hp]; rfl, hm.cons_above (by simp [hb])⟩
    | true =>
      cases hr : isReturn c with
      | true =>
        rw [if_pos hr] at h' ih
        obtain ⟨a, s, hp, hm⟩ := ih h'
        exact ⟨_, s, by rw [partsAt?_succ (splitLines_break hb hne), hp]; rfl, hm.cons_above fun _ => hr⟩
      | false =>
        rw [if_neg (by simp [hr])] at h'
        have hover := overBefore_of_lineFrom? h' (Nat.le_refl n)
        obtain ⟨a, s, hp, hlt⟩ := (hover.succ (splitLines_break hb hne)).exists_partsAt? column
        refine ⟨a, s, hp, .inr ⟨fun hret => ?_, ?_⟩⟩
        · have := (returnsOnly_cons_of_inner hb hr).mp hret
          obtain ⟨_, _, hlt⟩ := hover
          rw [(List.append_eq_nil_iff.mp this).1] at hlt
          exact absurd hlt (Nat.not_lt_zero _)
        · exact hlt.trans_le (List.prefix_append (c :: above') _).length_le

/-! ## Documents -/

/-- An insertion at another place makes another text for some character. -/
theorem eq_of_insertions {i j : Nat} (hij : i ≤ j) (hj : j ≤ text.length)
    (h : ∀ x : Char, text.take i ++ [x] ++ text.drop i = text.take j ++ [x] ++ text.drop j) : i = j := by
  by_contra hne
  have hlt : i < (text.take j).length := by rw [List.length_take]; omega
  have hleft : (text.take i).length = i := List.length_take_of_le (by omega)
  have hget (x : Char) : text[i]? = some x := by
    have : (text.take i ++ [x] ++ text.drop i)[i]? = (text.take j ++ [x] ++ text.drop j)[i]? := by rw [h x]
    rw [List.append_assoc, List.append_assoc, List.getElem?_append_right hleft.le, hleft, Nat.sub_self,
      List.getElem?_append_left hlt, List.getElem?_take_of_lt (by omega)] at this
    exact this.symm
  have := (hget 'a').symm.trans (hget 'b')
  cases this

theorem edit_self (text : List Char) (p : Position) (new : List Char) :
    edit text p p new = text.take (offset text p) ++ new ++ text.drop (offset text p) := by
  rw [edit, Nat.max_self]

theorem append_drop_of_firstUnits (h : lineFrom? n text = some (above, rest))
    (hu : FirstUnits column (unended rest) u) : above ++ u ++ rest.drop u.length = text := by
  rw [← append_of_lineFrom? h, List.append_assoc,
    List.prefix_iff_eq_append.mp (hu.isStart.trans (List.takeWhile_prefix _))]

/-- **The protocol's positions.** -/
theorem positions_protocol (d : Document) (h : lineFrom? p.line d.text = some (above, rest)) :
    ∃ u, FirstUnits p.column (unended rest) u ∧
      ((d.linePrefixAt? p = some (String.ofList u) ∧
          ∀ new : String, d.edited p p new =
            ⟨above ++ u ++ new.toList ++ rest.drop u.length, d.language⟩) ↔
        ReturnsOnly (above ++ u)) := by
  have hu := firstUnits_inUnits (unended rest) p.column
  refine ⟨_, hu, ?_⟩
  obtain ⟨a, s, hp, hm⟩ := partsAt?_of_lineFrom? h p.column
  have htext := append_drop_of_firstUnits h hu
  have hoffset := offset_of_partsAt? hp
  generalize inUnits p.column (unended rest) = u at htext hm
  constructor
  · rintro ⟨-, hedit⟩
    rcases hm with ⟨hret, -⟩ | ⟨-, hlt⟩
    · exact hret
    · have hle : (above ++ u).length ≤ d.text.length := by
        rw [← htext]
        exact (List.prefix_append _ _).length_le
      refine absurd (eq_of_insertions hlt.le hle fun x => ?_) hlt.ne
      have := congrArg Document.text (hedit (String.singleton x))
      rw [edited, edit_self, hoffset, String.toList_singleton] at this
      refine this.trans ?_
      rw [← htext]
      exact congrArg₂ (· ++ [x] ++ ·) List.take_left.symm List.drop_left.symm
  · intro hret
    rcases hm with ⟨-, he⟩ | ⟨hnot, -⟩
    · obtain ⟨rfl, rfl⟩ := Prod.mk.inj he
      refine ⟨by rw [linePrefixAt?, linePrefix?_eq, hp]; rfl, fun new => ?_⟩
      rw [edited, edit_self, hoffset, ← htext, List.take_left, List.drop_left]
    · exact absurd hret hnot

/-- Both kinds of line ends, a pair of units, and a vertical tab right before the place. -/
theorem positions_protocol_mixed :
    lineFrom? 2 "a\r\n\r😀b\x0bc".toList = some ("a\r\n\r".toList, "😀b\x0bc".toList) ∧
      (opened "a\r\n\r😀b\x0bc" "twig").linePrefixAt? ⟨2, 4⟩ = some "😀b\x0b" ∧
      (opened "a\r\n\r😀b\x0bc" "twig").edited ⟨2, 4⟩ ⟨2, 4⟩ "X" = ⟨"a\r\n\r😀b\x0bXc".toList, .twig⟩ := by
  have hline : lineFrom? 2 "a\r\n\r😀b\x0bc".toList = some ("a\r\n\r".toList, "😀b\x0bc".toList) := by decide
  obtain ⟨u, hu, hiff⟩ := positions_protocol ⟨_, .twig⟩ (p := ⟨2, 4⟩) hline
  have he : u = ['😀', 'b', '\x0b'] := hu.eq (firstUnits_inUnits _ _)
  subst he
  obtain ⟨hbefore, hedit⟩ := hiff.mpr (by decide)
  exact ⟨hline, hbefore, hedit "X"⟩

/-- **A tab is taken for a line end**: of a line of three characters two are seen, and what is inserted at
its end goes before the last. -/
theorem tab_taken_for_end :
    lineFrom? 0 "a\x0bb".toList = some ([], "a\x0bb".toList) ∧
      FirstUnits 3 (unended "a\x0bb".toList) "a\x0bb".toList ∧
      (opened "a\x0bb" "twig").linePrefixAt? ⟨0, 3⟩ = some "a\x0b" ∧
      ((opened "a\x0bb" "twig").edited ⟨0, 3⟩ ⟨0, 3⟩ "X").text = "a\x0bXb".toList :=
  ⟨rfl, firstUnits_inUnits ['a', '\x0b', 'b'] 3, by decide, by decide⟩

end SiteAssist.Document
