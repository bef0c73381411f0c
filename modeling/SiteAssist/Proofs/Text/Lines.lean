import SiteAssist.Text.Class
import SiteAssist.Proofs.Text.Pieces
import Mathlib.Data.List.Basic
import Mathlib.Data.List.TakeWhile

/-!
# Lines, and what stands around a word on one

A text is written line by line, each line with an end of one or two characters and the last perhaps
with none (`Ended`).  Reading gives the lines back but for blanks: a carriage return before a line feed
is taken for a part of the end (`map_trim_lines`).

Two texts with a line feed between them have the lines of both (`lines_append_cons`,
`exists_map_trim_splitOn`).

On a line, blanks around do not count (`trim_append`), and a word that holds no blank is cut off at the
first one (`cutAtFirst?_append`).
-/

namespace SiteAssist.Text

/-! ## Prefixes and suffixes -/

@[simp] theorem stripPrefix?_append (p s : List Char) : stripPrefix? p (p ++ s) = some s := by
  induction p with
  | nil => rfl
  | cons c p ih => rw [List.cons_append, stripPrefix?, if_pos rfl, ih]

@[simp] theorem stripSuffix?_append (s p : List Char) : stripSuffix? p (s ++ p) = some s := by
  rw [stripSuffix?, List.reverse_append, stripPrefix?_append, Option.map_some, List.reverse_reverse]

theorem cutAtFirst?_append {p : Char → Bool} {c : Char} (hc : p c = true) :
    ∀ {word : List Char}, (∀ x ∈ word, p x = false) → ∀ rest : List Char,
      cutAtFirst? p (word ++ c :: rest) = some (word, rest) := by
  intro word
  induction word with
  | nil => intro _ rest; rw [List.nil_append, cutAtFirst?, if_pos hc]
  | cons x word ih =>
    intro h rest
    have hx : ¬p x = true := by simp [h x List.mem_cons_self]
    rw [List.cons_append, cutAtFirst?, if_neg hx,
      ih (fun y hy => h y (List.mem_cons_of_mem x hy)) rest]
    rfl

theorem cutAtFirst?_eq_some_iff {p : Char → Bool} {s word rest : List Char} :
    cutAtFirst? p s = some (word, rest) ↔
      ∃ c, s = word ++ c :: rest ∧ p c = true ∧ ∀ x ∈ word, p x = false := by
  constructor
  · induction s generalizing word with
    | nil => intro h; cases h
    | cons c s ih =>
      intro h
      rw [cutAtFirst?] at h
      split at h
      · rename_i hc
        cases h
        exact ⟨c, rfl, hc, by simp⟩
      · rename_i hc
        obtain ⟨⟨word', rest'⟩, hcut, he⟩ := Option.map_eq_some_iff.mp h
        cases he
        obtain ⟨d, rfl, hd, hword⟩ := ih hcut
        exact ⟨d, rfl, hd, List.forall_mem_cons.mpr ⟨by simpa using hc, hword⟩⟩
  · rintro ⟨c, rfl, hc, hword⟩
    exact cutAtFirst?_append hc hword rest

theorem cutAtFirst?_eq_none_iff {p : Char → Bool} {s : List Char} :
    cutAtFirst? p s = none ↔ ∀ c ∈ s, p c = false := by
  induction s with
  | nil => simp [cutAtFirst?]
  | cons c s ih =>
    rw [cutAtFirst?, List.forall_mem_cons, ← ih]
    cases hc : p c <;> simp

/-! ## Blanks -/

/-- Nothing but blanks on one line. -/
def Blanks (s : List Char) : Prop := ∀ c ∈ s, isBlank c = true ∧ c ≠ '\n'

instance (s : List Char) : Decidable (Blanks s) := List.decidableBAll _ s

/-- A text that holds no blank. -/
def Word (s : List Char) : Prop := ∀ c ∈ s, isBlank c = false

instance (s : List Char) : Decidable (Word s) := List.decidableBAll _ s

theorem Blanks.notMem {s : List Char} (h : Blanks s) : '\n' ∉ s := fun hm => (h _ hm).2 rfl

theorem trimStart_append {b : List Char} (hb : ∀ c ∈ b, isBlank c = true) (s : List Char) :
    trimStart (b ++ s) = trimStart s := List.dropWhile_append_of_pos hb

theorem trimEnd_append {b : List Char} (hb : ∀ c ∈ b, isBlank c = true) (s : List Char) :
    trimEnd (s ++ b) = trimEnd s := by
  have hrev : ∀ c ∈ b.reverse, isBlank c = true := fun c hc => hb c (List.mem_reverse.mp hc)
  rw [trimEnd, List.reverse_append, List.dropWhile_append_of_pos hrev, trimEnd]

theorem trim_of_blanks {b : List Char} (hb : ∀ c ∈ b, isBlank c = true) : trim b = [] := by
  have hstart : trimStart b = [] := by
    have := trimStart_append hb []
    rwa [List.append_nil] at this
  rw [trim, hstart]
  rfl

theorem trimStart_cons {c : Char} (hc : isBlank c = false) (s : List Char) :
    trimStart (c :: s) = c :: s := List.dropWhile_cons_of_neg (by simp [hc])

theorem trimEnd_concat {c : Char} (hc : isBlank c = false) (s : List Char) :
    trimEnd (s ++ [c]) = s ++ [c] := by
  rw [trimEnd, List.reverse_append, List.reverse_singleton, List.singleton_append,
    List.dropWhile_cons_of_neg (by simp [hc]), List.reverse_cons, List.reverse_reverse]

theorem trimEnd_append_of_mem {c : Char} (hc : isBlank c = false) {t : List Char} (ht : c ∈ t)
    (s : List Char) : trimEnd (s ++ t) = s ++ trimEnd t := by
  have hne : ¬(t.reverse.dropWhile isBlank).isEmpty = true := by
    rw [List.isEmpty_iff, List.dropWhile_eq_nil_iff]
    intro hblank
    have := hblank c (List.mem_reverse.mpr ht)
    rw [hc] at this
    nomatch this
  rw [trimEnd, List.reverse_append, List.dropWhile_append, if_neg hne, List.reverse_append,
    List.reverse_reverse, trimEnd]

/-- Blanks at the end do not count, whatever stands before them. -/
theorem trim_append_blanks {b : List Char} (hb : ∀ c ∈ b, isBlank c = true) (s : List Char) :
    trim (s ++ b) = trim s := by
  by_cases hs : ∀ c ∈ s, isBlank c = true
  · have hsb : ∀ c ∈ s ++ b, isBlank c = true := fun c hc =>
      (List.mem_append.mp hc).elim (hs c) (hb c)
    rw [trim_of_blanks hs, trim_of_blanks hsb]
  · have hne : ¬(s.dropWhile isBlank).isEmpty = true := by
      rw [List.isEmpty_iff, List.dropWhile_eq_nil_iff]
      exact hs
    rw [trim, trimStart, List.dropWhile_append, if_neg hne, trimEnd_append hb]
    rfl

/-- **Blanks around a text do not count**, if it starts and ends with none. -/
theorem trim_append {a b s : List Char} (ha : ∀ c ∈ a, isBlank c = true)
    (hb : ∀ c ∈ b, isBlank c = true) (hhead : ∀ c ∈ s.head?, isBlank c = false)
    (hlast : ∀ c ∈ s.getLast?, isBlank c = false) : trim (a ++ (s ++ b)) = s := by
  rw [← List.append_assoc, trim_append_blanks hb, trim, trimStart_append ha]
  cases s with
  | nil => rfl
  | cons c t =>
    have hc : isBlank c = false := hhead c rfl
    have hne : c :: t ≠ [] := by simp
    have hend : isBlank ((c :: t).getLast hne) = false :=
      hlast _ (List.getLast?_eq_some_getLast hne)
    rw [trimStart_cons hc]
    have := trimEnd_concat hend (c :: t).dropLast
    rwa [List.dropLast_concat_getLast] at this

/-- The first character that is no blank starts what is left. -/
theorem exists_trim_cons {a : List Char} (ha : ∀ c ∈ a, isBlank c = true) {c : Char}
    (hc : isBlank c = false) (s : List Char) : ∃ t, trim (a ++ c :: s) = c :: t := by
  rw [trim, trimStart_append ha, trimStart_cons hc, trimEnd, List.reverse_cons,
    List.dropWhile_append]
  split
  · exact ⟨[], by simp [hc]⟩
  · exact ⟨_, by rw [List.reverse_append, List.reverse_singleton, List.singleton_append]⟩

/-! ## Trimmed texts -/

section

variable {a b s : List Char}

/-- A text without blanks at its ends. -/
def Trimmed (s : List Char) : Prop :=
  (∀ c ∈ s.head?, isBlank c = false) ∧ ∀ c ∈ s.getLast?, isBlank c = false

instance (s : List Char) : Decidable (Trimmed s) :=
  decidable_of_iff (s.head?.all (!isBlank ·) = true ∧ s.getLast?.all (!isBlank ·) = true)
    (by simp [Trimmed, Option.all_eq_true])

theorem blanks_nil : Blanks [] := by simp [Blanks]

theorem Trimmed.trim_between (hs : Trimmed s) (ha : Blanks a) (hb : Blanks b) :
    trim (a ++ (s ++ b)) = s :=
  trim_append (fun c hc => (ha c hc).1) (fun c hc => (hb c hc).1) hs.1 hs.2

theorem Trimmed.trim_eq (hs : Trimmed s) : trim s = s := by
  have := hs.trim_between blanks_nil blanks_nil
  rwa [List.nil_append, List.append_nil] at this

theorem head?_trimStart (s : List Char) : ∀ c ∈ (trimStart s).head?, isBlank c = false := by
  intro c hc
  have hnot := List.head?_dropWhile_not isBlank s
  rw [trimStart] at hc
  rw [Option.mem_def.mp hc] at hnot
  simpa using hnot

theorem trimmed_trim (s : List Char) : Trimmed (trim s) := by
  obtain ⟨t, ht⟩ : trim s <+: trimStart s :=
    List.reverse_suffix.mp (by rw [trim, trimEnd, List.reverse_reverse]; exact List.dropWhile_suffix _)
  constructor
  · intro c hc
    refine head?_trimStart s c ?_
    rw [← ht, List.head?_append, Option.mem_def.mp hc]
    rfl
  · intro c hc
    rw [trim, trimEnd, List.getLast?_reverse] at hc
    exact head?_trimStart (trimStart s).reverse c hc

/-- Trimmed texts around anything make a trimmed text. -/
theorem Trimmed.around {t : List Char} (hs : Trimmed s) (hne : s ≠ []) (ht : Trimmed t) (hne' : t ≠ [])
    (b : List Char) : Trimmed (s ++ (b ++ t)) := by
  constructor
  · rw [List.head?_append_of_ne_nil _ hne]
    exact hs.1
  · rw [← List.append_assoc, List.getLast?_append_of_ne_nil _ hne']
    exact ht.2

theorem Trimmed.trimStart_eq (hs : Trimmed s) : trimStart s = s := by
  cases s with
  | nil => rfl
  | cons c s => exact trimStart_cons (hs.1 c rfl) s

/-- What starts with no blank is trimmed at its end alone. -/
theorem trim_eq_trimEnd (h : ∀ c ∈ s.head?, isBlank c = false) : trim s = trimEnd s := by
  cases s with
  | nil => rfl
  | cons c s => rw [trim, trimStart_cons (h c rfl)]

end

/-! ## Lines -/

theorem isBlank_carriageReturn : ∀ c ∈ ['\r'], isBlank c = true := by
  intro c hc
  rw [List.mem_singleton.mp hc]
  decide

theorem trim_dropCarriageReturn (line : List Char) : trim (dropCarriageReturn line) = trim line := by
  rw [dropCarriageReturn]
  split
  · rename_i h
    obtain ⟨s, rfl⟩ := List.getLast?_eq_some_iff.mp h
    rw [List.dropLast_concat, trim_append_blanks isBlank_carriageReturn]
  · rfl

theorem map_trim_dropCarriageReturn (ls : List (List Char)) :
    (ls.map dropCarriageReturn).map trim = ls.map trim := by
  rw [List.map_map]
  exact List.map_congr_left fun l _ => trim_dropCarriageReturn l

theorem lines_of_notMem {line : List Char} (hn : '\n' ∉ line) (hne : line ≠ []) :
    lines line = [line] := by
  have he : ¬line.isEmpty = true := by simpa using hne
  rw [lines, List.splitOn_eq_singleton hn, linesOfPieces, if_neg he]

theorem linesOfPieces_append {qs : List (List Char)} (h : qs ≠ []) (ps : List (List Char)) :
    linesOfPieces (ps ++ qs) = ps.map dropCarriageReturn ++ linesOfPieces qs := by
  induction ps with
  | nil => rfl
  | cons p ps ih =>
    obtain ⟨q, rest, hq⟩ := List.exists_cons_of_ne_nil (List.append_ne_nil_of_right_ne_nil ps h)
    rw [List.cons_append, hq, linesOfPieces, ← hq, ih]
    · rfl
    · simp

/-- The lines up to a line feed are **the pieces before it**. -/
theorem lines_append_cons (s t : List Char) :
    lines (s ++ '\n' :: t) = (s.splitOn '\n').map dropCarriageReturn ++ lines t := by
  rw [lines, List.splitOn_append_cons_self, linesOfPieces_append (List.splitOn_ne_nil _ t), lines]

/-- A line feed ends a line. -/
theorem lines_append {line : List Char} (hn : '\n' ∉ line) (text : List Char) :
    lines (line ++ '\n' :: text) = dropCarriageReturn line :: lines text := by
  rw [lines_append_cons, List.splitOn_eq_singleton hn]
  rfl

/-- The lines of a text are its pieces but for blanks, and **but for an empty piece at the end**. -/
theorem exists_map_trim_splitOn (s : List Char) :
    ∃ j, (s.splitOn '\n').map trim = (lines s).map trim ++ List.replicate j [] := by
  obtain ⟨ps, p, hp⟩ := (List.eq_nil_or_concat (s.splitOn '\n')).resolve_left (List.splitOn_ne_nil _ s)
  rw [lines, hp, List.concat_eq_append, linesOfPieces_append (by simp), List.map_append, List.map_append,
    map_trim_dropCarriageReturn]
  cases p with
  | nil => exact ⟨1, by simp [linesOfPieces, trim_of_blanks]⟩
  | cons c p => exact ⟨0, by simp [linesOfPieces]⟩

/-- The ends that a line may have. -/
def IsLineEnd (e : List Char) : Prop := e = ['\n'] ∨ e = ['\r', '\n']

/-- A text that is written line by line. -/
inductive Ended : List (List Char) → List Char → Prop
  | nil : Ended [] []
  /-- the last line may go without an end -/
  | last {line : List Char} (hne : line ≠ []) : Ended [line] line
  | cons {line e text : List Char} {ls : List (List Char)} (he : IsLineEnd e) (rest : Ended ls text) :
      Ended (line :: ls) (line ++ e ++ text)

/-- **Reading gives back the lines that were written**, but for blanks around them. -/
theorem Ended.map_trim_lines {ls : List (List Char)} {text : List Char} (h : Ended ls text)
    (hn : ∀ l ∈ ls, '\n' ∉ l) : (lines text).map trim = ls.map trim := by
  induction h with
  | nil => rfl
  | last hne => rw [lines_of_notMem (hn _ List.mem_cons_self) hne]
  | @cons line e text ls he _ ih =>
    have hline := hn line List.mem_cons_self
    have hrest := ih fun l hl => hn l (List.mem_cons_of_mem line hl)
    obtain rfl | rfl := he
    · rw [List.append_assoc, List.singleton_append, lines_append hline, List.map_cons, hrest,
        trim_dropCarriageReturn, List.map_cons]
    · have hr : '\n' ∉ line ++ ['\r'] := by simpa using hline
      have hsplit : line ++ ['\r', '\n'] ++ text = (line ++ ['\r']) ++ '\n' :: text := by simp
      rw [hsplit, lines_append hr, List.map_cons, hrest, trim_dropCarriageReturn,
        trim_append_blanks isBlank_carriageReturn, List.map_cons]

end SiteAssist.Text
