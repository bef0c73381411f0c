import Mathlib.Data.List.TakeWhile
import SiteAssist.Document

/-!
# Places and positions

A client that holds a text knows a place in it by the number of characters before it, and sends the
position of that place: the line ends before it, and the UTF-16 length of what stands after the last
of them (`positionAt`).  The server has the position only, and looks the place up in the lines of its
own copy.

* `splitLines_append`: the lines of a text, at a place that does not part a carriage return from its
  line feed (`Cut`), are **those before it, the line it lies on, and those after it**.
* `offset_positionAt`: the server finds **the place the client meant**.
* `linePrefix?_positionAt`: what it takes for the line before the cursor is what stands there.
* `edit_positionAt`: an edit between two places replaces what lies between them.
-/

namespace SiteAssist.Document

open Text (units unitWidth)

/-! ## The end of a list

What stands after the last element of some kind, whichever kind that is.
-/

section

variable {α : Type} {p : α → Bool} {a b : α} {as : List α}

theorem takeLastWhile_eq_self (h : ∀ a ∈ as, p a = true) :
    (as.reverse.takeWhile p).reverse = as := by
  rw [List.takeWhile_eq_self_iff.mpr, List.reverse_reverse]
  exact fun a ha => h a (List.mem_reverse.mp ha)

theorem takeLastWhile_cons_of_neg (h : p a = false) (as : List α) :
    ((a :: as).reverse.takeWhile p).reverse = (as.reverse.takeWhile p).reverse := by
  rw [List.reverse_cons, List.takeWhile_append]
  split
  · rename_i hl
    rw [List.takeWhile_cons_of_neg (by simp [h]), List.append_nil,
      (List.takeWhile_prefix _).eq_of_length hl]
  · rfl

theorem takeLastWhile_cons_of_mem (a : α) (hb : b ∈ as) (h : p b = false) :
    ((a :: as).reverse.takeWhile p).reverse = (as.reverse.takeWhile p).reverse := by
  rw [List.reverse_cons, List.takeWhile_append]
  split
  · rename_i hl
    have := List.takeWhile_eq_self_iff.mp ((List.takeWhile_prefix _).eq_of_length hl) b
      (List.mem_reverse.mpr hb)
    simp [h] at this
  · rfl

end

/-! ## Line ends -/

/-- The number of line ends of a text; a carriage return and the line feed after it are one. -/
def lineEnds : List Char → Nat
  | [] => 0
  | '\r' :: '\n' :: cs => lineEnds cs + 1
  | c :: cs => if isBreak c then lineEnds cs + 1 else lineEnds cs

/-- What stands after the last break of a text. -/
def lastLine (text : List Char) : List Char :=
  (text.reverse.takeWhile fun c => !isBreak c).reverse

/-- A place in a text that does not part a carriage return from its line feed. -/
def Cut (text : List Char) (i : Nat) : Prop :=
  i ≤ text.length ∧
    ¬((text.take i).getLast? = some '\r' ∧ (text.drop i).head? = some '\n')

instance (text : List Char) (i : Nat) : Decidable (Cut text i) :=
  inferInstanceAs (Decidable (_ ∧ _))

/-- The position of a place: the line ends before it, and the length of its line so far. -/
def positionAt (text : List Char) (i : Nat) : Position :=
  ⟨lineEnds (text.take i), units (lastLine (text.take i))⟩

theorem isBreak_of_mem_lastLine {text : List Char} {c : Char} (h : c ∈ lastLine text) :
    isBreak c = false := by
  rw [lastLine, List.mem_reverse] at h
  simpa using List.all_eq_true.mp List.all_takeWhile c h

theorem lastLine_of_unbroken {text : List Char} (h : ∀ c ∈ text, isBreak c = false) :
    lastLine text = text := takeLastWhile_eq_self fun c hc => by rw [h c hc, Bool.not_false]

theorem lastLine_break_cons {c : Char} (h : isBreak c = true) (cs : List Char) :
    lastLine (c :: cs) = lastLine cs := takeLastWhile_cons_of_neg (by rw [h, Bool.not_true]) cs

theorem lastLine_cons_of_broken (c : Char) {cs : List Char} (h : ∃ d ∈ cs, isBreak d = true) :
    lastLine (c :: cs) = lastLine cs := by
  obtain ⟨d, hd, hb⟩ := h
  exact takeLastWhile_cons_of_mem c hd (by rw [hb, Bool.not_true])

theorem lineEnds_break_cons {c : Char} {cs : List Char}
    (h : ∀ rest, c = '\r' → cs = '\n' :: rest → False) (hb : isBreak c = true) :
    lineEnds (c :: cs) = lineEnds cs + 1 := by
  rw [lineEnds, if_pos hb]
  exact h

theorem lineEnds_cons {c : Char} (hb : ¬isBreak c = true) (cs : List Char) :
    lineEnds (c :: cs) = lineEnds cs := by
  rw [lineEnds, if_neg hb]
  rintro rest rfl rfl
  exact hb (by decide)

theorem exists_break_of_lineEnds {text : List Char} (h : lineEnds text ≠ 0) :
    ∃ c ∈ text, isBreak c = true := by
  induction text using lineEnds.induct with
  | case1 => exact absurd rfl h
  | case2 cs _ => exact ⟨'\n', by simp, by decide⟩
  | case3 c cs _ hb _ => exact ⟨c, List.mem_cons_self, hb⟩
  | case4 c cs hne hb ih =>
    rw [lineEnds_cons hb] at h
    obtain ⟨d, hd, hbd⟩ := ih h
    exact ⟨d, List.mem_cons_of_mem c hd, hbd⟩

/-! ## Lines around a place -/

theorem splitLines_ne_nil (text : List Char) : splitLines text ≠ [] := by
  induction text using splitLines.induct <;> simp_all [splitLines]

theorem splitLines_crlf (cs : List Char) :
    splitLines ('\r' :: '\n' :: cs) = ['\r', '\n'] :: splitLines cs := by
  rw [splitLines]

theorem splitLines_break {c : Char} (hb : isBreak c = true) {cs : List Char}
    (h : ∀ t, c = '\r' → cs = '\n' :: t → False) : splitLines (c :: cs) = [c] :: splitLines cs := by
  rw [splitLines, if_pos hb]
  exact h

theorem splitLines_break_cons {c : Char} (hb : isBreak c = true) {cs : List Char}
    (h : ¬(c = '\r' ∧ cs.head? = some '\n')) : splitLines (c :: cs) = [c] :: splitLines cs :=
  splitLines_break hb fun _ hc hcs => h ⟨hc, List.head?_eq_some_iff.mpr ⟨_, hcs⟩⟩

theorem splitLines_cons {c : Char} (hb : isBreak c = false) {cs line : List Char}
    {lines : List (List Char)} (h : splitLines cs = line :: lines) :
    splitLines (c :: cs) = (c :: line) :: lines := by
  rw [splitLines, if_neg (by simp [hb]), h]
  rintro rest rfl rfl
  simp [isBreak] at hb

/-- A line with the break that ends it. -/
def IsFullLine (line : List Char) : Prop := ∃ w c, line = w ++ [c] ∧ isBreak c = true

theorem IsFullLine.cons {line : List Char} (h : IsFullLine line) (c : Char) : IsFullLine (c :: line) := by
  obtain ⟨w, d, rfl, hd⟩ := h
  exact ⟨c :: w, d, rfl, hd⟩

/-- **The lines around a place.** -/
theorem splitLines_append {u v first : List Char} {rest : List (List Char)}
    (hv : splitLines v = first :: rest) (h : ¬(u.getLast? = some '\r' ∧ v.head? = some '\n')) :
    ∃ full, splitLines (u ++ v) = full ++ (lastLine u ++ first) :: rest ∧
      full.length = lineEnds u ∧ full.flatten ++ lastLine u = u ∧ ∀ l ∈ full, IsFullLine l := by
  induction u using lineEnds.induct with
  | case1 => exact ⟨[], hv, rfl, rfl, by simp⟩
  | case2 cs ih =>
    obtain ⟨full, he, hlen, hflat, hfull⟩ :=
      ih fun hc => h ⟨by rw [List.getLast?_cons, List.getLast?_cons, hc.1]; rfl, hc.2⟩
    refine ⟨['\r', '\n'] :: full, ?_, by rw [List.length_cons, hlen, lineEnds], ?_, ?_⟩
    · rw [lastLine_break_cons (by decide), lastLine_break_cons (by decide), List.cons_append,
        List.cons_append, splitLines, he]
      rfl
    · rw [lastLine_break_cons (by decide), lastLine_break_cons (by decide), List.flatten_cons,
        List.append_assoc, hflat]
      rfl
    · exact List.forall_mem_cons.mpr ⟨⟨['\r'], '\n', rfl, by decide⟩, hfull⟩
  | case3 c cs hne hb ih =>
    obtain ⟨full, he, hlen, hflat, hfull⟩ :=
      ih fun hc => h ⟨by rw [List.getLast?_cons, hc.1]; rfl, hc.2⟩
    have hret : ¬(c = '\r' ∧ (cs ++ v).head? = some '\n') := by
      rintro ⟨rfl, hv⟩
      cases cs with
      | nil => exact h ⟨rfl, hv⟩
      | cons d cs =>
        rw [List.cons_append, List.head?_cons, Option.some.injEq] at hv
        exact hne cs rfl (by rw [hv])
    refine ⟨[c] :: full, ?_, ?_, ?_, ?_⟩
    · rw [lastLine_break_cons hb, List.cons_append, splitLines_break_cons hb hret, he]
      rfl
    · rw [List.length_cons, hlen, lineEnds_break_cons hne hb]
    · rw [lastLine_break_cons hb, List.flatten_cons, List.append_assoc, hflat]
      rfl
    · exact List.forall_mem_cons.mpr ⟨⟨[], c, rfl, hb⟩, hfull⟩
  | case4 c cs hne hb ih =>
    have hb' : isBreak c = false := by simpa using hb
    obtain ⟨full, he, hlen, hflat, hfull⟩ :=
      ih fun hc => h ⟨by rw [List.getLast?_cons, hc.1]; rfl, hc.2⟩
    rw [lineEnds_cons hb, List.cons_append]
    cases full with
    | nil =>
      -- no line end so far: the character goes to the front of the line
      rw [List.flatten_nil, List.nil_append] at hflat
      have hun : ∀ d ∈ c :: cs, isBreak d = false := by
        intro d hd
        rcases List.mem_cons.mp hd with rfl | hd
        · exact hb'
        · exact isBreak_of_mem_lastLine (by rw [hflat]; exact hd)
      refine ⟨[], ?_, hlen, lastLine_of_unbroken hun, hfull⟩
      rw [lastLine_of_unbroken hun, splitLines_cons hb' he, hflat]
      rfl
    | cons line full =>
      have hbroken : ∃ d ∈ cs, isBreak d = true :=
        exists_break_of_lineEnds (by simp [← hlen])
      obtain ⟨hline, hfull⟩ := List.forall_mem_cons.mp hfull
      refine ⟨(c :: line) :: full, ?_, hlen, ?_, List.forall_mem_cons.mpr ⟨hline.cons c, hfull⟩⟩
      · rw [lastLine_cons_of_broken c hbroken, splitLines_cons hb' he]
        rfl
      · rw [lastLine_cons_of_broken c hbroken, List.flatten_cons, List.cons_append,
          List.cons_append, ← List.flatten_cons, hflat]

/-! ## The server's way back -/

theorem content_append {l : List Char} (hl : ∀ c ∈ l, isBreak c = false) (x : List Char) :
    content (l ++ x) = l ++ content x := by
  have hkeep : l.reverse.dropWhile isReturn = l.reverse := by
    cases hr : l.reverse with
    | nil => rfl
    | cons c cs =>
      have hc := hl c (List.mem_reverse.mp (hr ▸ List.mem_cons_self))
      have hn : ¬isReturn c = true := by
        intro e
        rw [isReturn, Bool.or_eq_true, beq_iff_eq, beq_iff_eq] at e
        rcases e with rfl | rfl <;> simp [isBreak] at hc
      rw [List.dropWhile_cons_of_neg hn]
  rw [content, content, List.reverse_append, List.dropWhile_append, hkeep]
  split
  · rename_i he
    rw [List.isEmpty_iff.mp he, List.reverse_reverse, List.reverse_nil, List.append_nil]
  · rw [List.reverse_append, List.reverse_reverse]

theorem unitWidth_pos (c : Char) : 0 < unitWidth c := by
  rw [unitWidth]
  split <;> simp

theorem charsInUnits_zero (x : List Char) : charsInUnits 0 x = 0 := by
  cases x with
  | nil => rfl
  | cons c cs => rw [charsInUnits, if_neg (Nat.not_le.mpr (unitWidth_pos c))]

/-- A text's own length leads to its end, whatever follows. -/
theorem charsInUnits_append (l x : List Char) : charsInUnits (units l) (l ++ x) = l.length := by
  induction l with
  | nil => exact charsInUnits_zero x
  | cons c cs ih =>
    rw [units, List.cons_append, charsInUnits, if_pos (Nat.le_add_right _ _),
      Nat.add_sub_cancel_left, ih, List.length_cons]

theorem before_append {l : List Char} (hl : ∀ c ∈ l, isBreak c = false) (x : List Char) :
    before (l ++ x) (units l) = l := by
  rw [before, content_append hl, charsInUnits_append, List.take_left]

variable {text : List Char} {i : Nat}

/-- The lines of a text around a cut. -/
theorem splitLines_cut (h : Cut text i) :
    ∃ full rest first, splitLines text = full ++ (lastLine (text.take i) ++ first) :: rest ∧
      full.length = (positionAt text i).line ∧
        full.flatten.length + (lastLine (text.take i)).length = i := by
  obtain ⟨first, rest, hv⟩ := List.exists_cons_of_ne_nil (splitLines_ne_nil (text.drop i))
  obtain ⟨full, he, hlen, hflat, _⟩ := splitLines_append hv h.2
  rw [List.take_append_drop] at he
  refine ⟨full, rest, first, he, hlen, ?_⟩
  have := congrArg List.length hflat
  rw [List.length_append, List.length_take, Nat.min_eq_left h.1] at this
  exact this

/-- **A position leads to the place that it was taken of.** -/
theorem offset_positionAt (h : Cut text i) : offset text (positionAt text i) = i := by
  obtain ⟨full, rest, first, he, hlen, hsum⟩ := splitLines_cut h
  have hbefore := before_append (fun c hc => isBreak_of_mem_lastLine hc) first
    (l := lastLine (text.take i))
  rw [offset, he]
  simp only [← hlen, List.getElem?_append_right (Nat.le_refl _), Nat.sub_self,
    List.getElem?_cons_zero, List.take_left]
  rw [positionAt, hbefore, hsum]

/-- **The line before a position** is what stands between the last break and the place. -/
theorem linePrefix?_positionAt (h : Cut text i) :
    linePrefix? text (positionAt text i) = some (lastLine (text.take i)) := by
  obtain ⟨full, rest, first, he, hlen, _⟩ := splitLines_cut h
  rw [linePrefix?, he]
  simp only [← hlen, List.getElem?_append_right (Nat.le_refl _), Nat.sub_self,
    List.getElem?_cons_zero, Option.map_some]
  rw [positionAt, before_append fun c hc => isBreak_of_mem_lastLine hc]

/-- **An edit between two places** replaces what lies between them. -/
theorem edit_positionAt {j : Nat} (hi : Cut text i) (hj : Cut text j) (hij : i ≤ j)
    (new : List Char) :
    edit text (positionAt text i) (positionAt text j) new = text.take i ++ new ++ text.drop j := by
  rw [edit]
  simp only [offset_positionAt hi, offset_positionAt hj, Nat.max_eq_right hij]

end SiteAssist.Document
