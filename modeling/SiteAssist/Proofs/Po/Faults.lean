import Mathlib.Order.Bounds.Basic
import SiteAssist.Proofs.Po.Run
import SiteAssist.Proofs.Text.Numeral
import SiteAssist.Proofs.Text.Search

/-!
# The first fault of a catalog

A catalog is refused at the first of its lines that is at fault.  Whether a line is at fault shows on the
line itself and on the one before it (`Faulty`): a line that starts with a quote has to be a well-formed
string and to follow a line that says something, and any other line that says something has to be a keyword
and, after a blank, a well-formed string.

The reader knows the line before by the field that it is in, which it leaves at every line that says nothing
(`isSome_field_run`).

* `exists_ofText_iff`: **a line is read exactly if it is not at fault**.
* `isLeast_faultAt_of_run`, `not_faultAt_of_run`: lines stop the reader at their first fault, and lines
  without a fault do not.
* `Bounded`: no more forms are held than a catalog can name.
* `parse_first_fault`: a catalog is refused **exactly at its first fault**, the lines up to there decide how,
  and a catalog that is not refused has entries of at most seventeen forms.
-/

namespace SiteAssist.Po

open Text (Word Numeral isBlank trim)

/-! ## Strings -/

/-- Every backslash has the character that it escapes. -/
inductive Escaped : List Char → Prop
  | nil : Escaped []
  | plain {c : Char} {s : List Char} (hc : c ≠ '\\') (rest : Escaped s) : Escaped (c :: s)
  | escape (c : Char) {s : List Char} (rest : Escaped s) : Escaped ('\\' :: c :: s)

/-- A well-formed string: a quote at each end, and no backslash left alone between them. -/
def IsString (s : List Char) : Prop := ∃ inner, s = '"' :: (inner ++ ['"']) ∧ Escaped inner

theorem exists_map_eq_ok_iff {ε α β : Type} {x : Except ε α} {f : α → β} :
    (∃ b, x.map f = .ok b) ↔ ∃ a, x = .ok a := by
  cases x <;> simp [Except.map]

theorem exists_decode_iff {s : List Char} : (∃ t, decode s = .ok t) ↔ Escaped s := by
  induction s using decode.induct with
  | case1 => exact ⟨fun _ => .nil, fun _ => ⟨[], rfl⟩⟩
  | case2 =>
    refine ⟨?_, fun h => ?_⟩
    · rintro ⟨t, h⟩
      cases h
    · cases h with
      | plain hc _ => exact absurd rfl hc
  | case3 c rest ih =>
    rw [decode.eq_def]
    refine exists_map_eq_ok_iff.trans (ih.trans ⟨.escape c, fun h => ?_⟩)
    cases h with
    | plain hc _ => exact absurd rfl hc
    | escape _ rest => exact rest
  | case4 c rest hlast hne ih =>
    have hc : c ≠ '\\' := by
      rintro rfl
      cases rest with
      | nil => exact hlast rfl rfl
      | cons d rest => exact hne d rest rfl rfl
    rw [decode, exists_map_eq_ok_iff, ih]
    · refine ⟨.plain hc, fun h => ?_⟩
      cases h with
      | plain _ rest => exact rest
      | escape _ _ => exact absurd rfl hc
    · exact hlast
    · exact hne

theorem exists_unquote_iff {s : List Char} : (∃ t, unquote s = .ok t) ↔ IsString s := by
  rw [unquote, IsString]
  cases h : (Text.stripPrefix? ['"'] s).bind (Text.stripSuffix? ['"']) with
  | some inner =>
    rw [Text.strip_eq_some_iff] at h
    refine exists_decode_iff.trans ⟨fun hi => ⟨inner, h, hi⟩, ?_⟩
    rintro ⟨other, hs, hi⟩
    have hinner : inner = other := by simpa [h] using hs
    rwa [hinner]
  | none =>
    constructor
    · rintro ⟨t, ht⟩
      cases ht
    · rintro ⟨inner, hs, _⟩
      rw [Text.strip_eq_some_iff.mpr hs] at h
      cases h

/-! ## Keywords -/

/-- The keywords of a catalog. -/
inductive IsKeyword : List Char → Prop
  | context : IsKeyword "msgctxt".toList
  | msgid : IsKeyword "msgid".toList
  | plural : IsKeyword "msgid_plural".toList
  | onlyForm : IsKeyword "msgstr".toList
  | form {n : Nat} {index : List Char} (h : Numeral n index) (hn : n ≤ 16) :
      IsKeyword ("msgstr[".toList ++ (index ++ [']']))

theorem exists_fieldOf_iff {k : List Char} : (∃ f, fieldOf k = .ok f) ↔ IsKeyword k := by
  constructor
  · rintro ⟨f, h⟩
    rw [fieldOf] at h
    split at h
    · rename_i hk
      exact hk ▸ .context
    split at h
    · rename_i hk
      exact hk ▸ .msgid
    split at h
    · rename_i hk
      exact hk ▸ .plural
    split at h
    · rename_i hk
      exact hk ▸ .onlyForm
    split at h
    · rename_i index hindex
      split at h
      · rename_i n hn
        obtain ⟨hlt, hnumeral⟩ := Text.boundedNat?_eq_some_iff.mp hn
        rw [Text.strip_eq_some_iff.mp hindex]
        exact .form hnumeral (Nat.le_of_lt_succ hlt)
      · cases h
    · cases h
  · intro h
    cases h with
    | context | msgid | plural | onlyForm => exact ⟨_, rfl⟩
    | @form n index h hn =>
      have hvalue : Text.boundedNat? (maxPluralIndex + 1) index = some n :=
        Text.boundedNat?_eq_some_iff.mpr ⟨Nat.lt_succ_of_le hn, h⟩
      have hstrip : (Text.stripPrefix? "msgstr[".toList ("msgstr[".toList ++ (index ++ [']']))).bind
          (Text.stripSuffix? [']']) = some index := Text.strip_eq_some_iff.mpr rfl
      have hne : ∀ w ∈ ["msgctxt".toList, "msgid".toList, "msgid_plural".toList, "msgstr".toList],
          "msgstr[".toList ++ (index ++ [']']) ≠ w := by
        simp
      simp only [List.forall_mem_cons] at hne
      refine ⟨.msgstr n, ?_⟩
      rw [fieldOf, if_neg hne.1, if_neg hne.2.1, if_neg hne.2.2.1, if_neg hne.2.2.2.1, hstrip]
      dsimp only
      rw [hvalue]

/-! ## Lines -/

/-- A line that says nothing: empty, or a comment. -/
def Silent (line : List Char) : Prop := line = [] ∨ line.head? = some '#'

/-- A line of a keyword and a string: any that does not start with a quote and says something. -/
def IsFieldLine (line : List Char) : Prop := ¬Silent line ∧ line.head? ≠ some '"'

/-- The first word of a line, and what follows the blank after it. -/
def Parted (line k rest : List Char) : Prop := ∃ c, line = k ++ c :: rest ∧ isBlank c = true ∧ Word k

/-- A line that is at fault after the one before it, if there is one.  Both are taken without the
blanks around them. -/
inductive Faulty (previous : Option (List Char)) (line : List Char) : Prop
  /-- a string that continues nothing -/
  | orphan (hq : line.head? = some '"') (h : ∀ l ∈ previous, Silent l)
  | segment (hq : line.head? = some '"') (h : ¬IsString line)
  | single (hl : IsFieldLine line) (h : Word line)
  | string {k rest : List Char} (hl : IsFieldLine line) (hp : Parted line k rest)
      (h : ¬IsString (trim rest))
  | keyword {k rest : List Char} (hl : IsFieldLine line) (hp : Parted line k rest) (h : ¬IsKeyword k)

variable {previous : Option (List Char)} {line k rest : List Char}

theorem not_faulty_of_silent (h : Silent line) : ¬Faulty previous line := by
  intro hf
  cases hf with
  | orphan hq _ | segment hq _ =>
    rcases h with rfl | hh
    · cases hq
    · rw [hh] at hq
      cases hq
  | single hl _ | string hl _ _ | keyword hl _ _ => exact hl.1 h

theorem faulty_quoted_iff (h : line.head? = some '"') :
    Faulty previous line ↔ (∀ l ∈ previous, Silent l) ∨ ¬IsString line := by
  refine ⟨fun hf => ?_, fun hf => hf.elim (.orphan h) (.segment h)⟩
  cases hf with
  | orphan _ ho => exact .inl ho
  | segment _ hs => exact .inr hs
  | single hl _ | string hl _ _ | keyword hl _ _ => exact absurd h hl.2

theorem Parted.notWord (h : Parted line k rest) : ¬Word line := by
  obtain ⟨c, rfl, hc, _⟩ := h
  intro hw
  rw [hw c (by simp)] at hc
  cases hc

theorem Parted.unique {k' rest' : List Char} (h : Parted line k rest) (h' : Parted line k' rest') :
    k = k' ∧ rest = rest' := by
  have hcut := (Text.cutAtFirst?_eq_some_iff.mpr h).symm.trans (Text.cutAtFirst?_eq_some_iff.mpr h')
  simpa using hcut

theorem faulty_parted_iff (hl : IsFieldLine line) (hp : Parted line k rest) :
    Faulty previous line ↔ ¬IsString (trim rest) ∨ ¬IsKeyword k := by
  refine ⟨fun hf => ?_, fun hf => hf.elim (.string hl hp) (.keyword hl hp)⟩
  cases hf with
  | orphan hq _ | segment hq _ => exact absurd hq hl.2
  | single _ hw => exact absurd hw hp.notWord
  | string _ hp' h =>
    obtain ⟨rfl, rfl⟩ := hp.unique hp'
    exact .inl h
  | keyword _ hp' h =>
    obtain ⟨rfl, rfl⟩ := hp.unique hp'
    exact .inr h

theorem exists_ofText_of_silent (h : Silent line) (continued : Bool) :
    ∃ kind, Line.ofText continued line = .ok kind := by
  rcases h with rfl | h
  · exact ⟨.blank, rfl⟩
  · obtain ⟨s, rfl⟩ := List.head?_eq_some_iff.mp h
    exact ⟨.comment, rfl⟩

/-- A line of a keyword and a string is cut at its first blank. -/
theorem ofText_fieldLine (h : IsFieldLine line) (continued : Bool) :
    Line.ofText continued line =
      (match Text.cutAtFirst? isBlank line with
      | none => .error .missingString
      | some (keyword, rest) => do
        let text ← unquote (trim rest)
        let field ← fieldOf keyword
        .ok (.field field text)) := by
  rw [Line.ofText.eq_def]
  split
  · exact absurd (.inl rfl) h.1
  · exact absurd (.inr rfl) h.1
  · exact absurd rfl h.2
  · rfl

theorem exists_bind_eq_ok_iff {ε α β : Type} {x : Except ε α} {f : α → Except ε β} :
    (∃ b, (x >>= f) = .ok b) ↔ ∃ a, x = .ok a ∧ ∃ b, f a = .ok b := by
  cases x <;> simp [bind, Except.bind]

/-- A keyword and a string are read if both are well formed. -/
theorem exists_ofText_parted_iff (h : IsFieldLine line) (hp : Parted line k rest) (continued : Bool) :
    (∃ kind, Line.ofText continued line = .ok kind) ↔ IsString (trim rest) ∧ IsKeyword k := by
  rw [ofText_fieldLine h, Text.cutAtFirst?_eq_some_iff.mpr hp, ← exists_unquote_iff, ← exists_fieldOf_iff]
  simp only [exists_bind_eq_ok_iff]
  constructor
  · rintro ⟨t, ht, f, hf, _⟩
    exact ⟨⟨t, ht⟩, f, hf⟩
  · rintro ⟨⟨t, ht⟩, f, hf⟩
    exact ⟨t, ht, f, hf, _, rfl⟩

/-- **A line is read exactly if it is not at fault**, where the reader is in a field exactly if the line
before says something. -/
theorem exists_ofText_iff {continued : Bool} (h : continued = true ↔ ∃ l ∈ previous, ¬Silent l) :
    (∃ kind, Line.ofText continued line = .ok kind) ↔ ¬Faulty previous line := by
  by_cases hsilent : Silent line
  · exact iff_of_true (exists_ofText_of_silent hsilent continued) (not_faulty_of_silent hsilent)
  by_cases hquote : line.head? = some '"'
  · rw [faulty_quoted_iff hquote]
    obtain ⟨s, rfl⟩ := List.head?_eq_some_iff.mp hquote
    rw [Line.ofText]
    cases continued with
    | false =>
      have hall : ∀ l ∈ previous, Silent l := by simpa using h
      refine iff_of_false ?_ fun hn => hn (.inl hall)
      rintro ⟨kind, hkind⟩
      cases hkind
    | true =>
      obtain ⟨l, hm, hl⟩ := h.mp rfl
      have hsome : ¬∀ l ∈ previous, Silent l := fun hall => hl (hall l hm)
      rw [if_pos rfl, exists_map_eq_ok_iff, exists_unquote_iff, not_or, Classical.not_not,
        and_iff_right hsome]
  · have hl : IsFieldLine line := ⟨hsilent, hquote⟩
    cases hcut : Text.cutAtFirst? isBlank line with
    | none =>
      have hword : Word line := Text.cutAtFirst?_eq_none_iff.mp hcut
      rw [ofText_fieldLine hl, hcut]
      refine iff_of_false ?_ fun hn => hn (.single hl hword)
      rintro ⟨kind, hkind⟩
      cases hkind
    | some parts =>
      have hp : Parted line parts.1 parts.2 := Text.cutAtFirst?_eq_some_iff.mp hcut
      rw [exists_ofText_parted_iff hl hp, faulty_parted_iff hl hp, not_or, Classical.not_not,
        Classical.not_not]

/-- What a line is read as: a line that says nothing is blank or a comment, and any other is a string
that goes on or a field that has a keyword. -/
theorem ofText_cases {continued : Bool} {kind : Line} (h : Line.ofText continued line = .ok kind) :
    (Silent line ∧ (kind = .blank ∨ kind = .comment)) ∨
      (¬Silent line ∧ ((continued = true ∧ ∃ t, kind = .continuation t) ∨
        ∃ k f t, fieldOf k = .ok f ∧ kind = .field f t)) := by
  by_cases hsilent : Silent line
  · refine .inl ⟨hsilent, ?_⟩
    rcases hsilent with rfl | hhash
    · cases h
      exact .inl rfl
    · obtain ⟨s, rfl⟩ := List.head?_eq_some_iff.mp hhash
      cases h
      exact .inr rfl
  refine .inr ⟨hsilent, ?_⟩
  by_cases hquote : line.head? = some '"'
  · obtain ⟨s, rfl⟩ := List.head?_eq_some_iff.mp hquote
    rw [Line.ofText] at h
    cases continued with
    | false => cases h
    | true =>
      rw [if_pos rfl] at h
      cases hu : unquote ('"' :: s) with
      | error p =>
        rw [hu] at h
        cases h
      | ok t =>
        rw [hu] at h
        cases h
        exact .inl ⟨rfl, t, rfl⟩
  · rw [ofText_fieldLine ⟨hsilent, hquote⟩] at h
    split at h
    · cases h
    · rename_i k rest _
      cases hu : unquote (trim rest) with
      | error p =>
        rw [hu] at h
        cases h
      | ok t =>
        cases hf : fieldOf k with
        | error p =>
          rw [hu, hf] at h
          cases h
        | ok f =>
          rw [hu, hf] at h
          cases h
          exact .inr ⟨k, f, t, hf, rfl⟩

/-- The reader is in a field after a line exactly if the line says something. -/
theorem isSome_field_step {s : State} {kind : Line}
    (h : Line.ofText s.field.isSome line = .ok kind) :
    (s.step kind).field.isSome = true ↔ ¬Silent line := by
  rcases ofText_cases h with ⟨hs, rfl | rfl⟩ | ⟨hs, ⟨hfield, t, rfl⟩ | ⟨k, f, t, _, rfl⟩⟩
  · simp [State.step, hs]
  · simp [State.step, hs]
  · obtain ⟨f, hf⟩ := Option.isSome_iff_exists.mp hfield
    simp [State.step, hs, hf]
  · simp [State.step, hs]

/-- **What the reader knows of the lines read**: whether the last of them says something. -/
theorem isSome_field_run {ls : List (List Char)} {s : State} (h : State.run {} 1 ls = .ok s) :
    s.field.isSome = true ↔ ∃ l ∈ ls.getLast?.map trim, ¬Silent l := by
  rcases List.eq_nil_or_concat ls with rfl | ⟨before, l, rfl⟩
  · cases h
    simp
  · rw [List.concat_eq_append, run_append] at h
    cases hrun : State.run {} 1 before with
    | error e =>
      rw [hrun] at h
      cases h
    | ok s' =>
      rw [hrun] at h
      dsimp only [Except.bind] at h
      rw [run_singleton] at h
      split at h
      · cases h
      · rename_i kind hkind
        cases h
        rw [isSome_field_step hkind]
        simp

/-! ## The first fault -/

/-- The line of a number, counted from one, is at fault. -/
def FaultAt (ls : List (List Char)) (n : Nat) : Prop :=
  ∃ before line rest, ls = before ++ line :: rest ∧ n = before.length + 1 ∧
    Faulty (before.getLast?.map trim) (trim line)

/-- A fault among the first lines is a fault of any lines that start with them. -/
theorem FaultAt.of_append {ls ms : List (List Char)} {n : Nat} (h : FaultAt (ls ++ ms) n)
    (hn : n ≤ ls.length) : FaultAt ls n := by
  obtain ⟨before, line, rest, he, rfl, hfault⟩ := h
  rcases List.append_eq_append_iff.mp he with ⟨mid, rfl, hmid⟩ | ⟨mid, rfl, hmid⟩
  · rw [List.length_append] at hn
    omega
  · cases mid with
    | nil =>
      rw [List.append_nil] at hn
      omega
    | cons l mid =>
      rw [List.cons_append, List.cons.injEq] at hmid
      obtain ⟨rfl, _⟩ := hmid
      exact ⟨before, line, mid, rfl, rfl, hfault⟩

/-- **Lines that are read have no fault.** -/
theorem not_faultAt_of_run {ls : List (List Char)} {s : State} (h : State.run {} 1 ls = .ok s) (n : Nat) :
    ¬FaultAt ls n := by
  rintro ⟨before, line, rest, rfl, rfl, hfault⟩
  rw [run_append] at h
  cases hrun : State.run {} 1 before with
  | error e =>
    rw [hrun] at h
    cases h
  | ok s' =>
    rw [hrun] at h
    dsimp only [Except.bind] at h
    rw [State.run] at h
    split at h
    · cases h
    · rename_i kind hkind
      exact (exists_ofText_iff (isSome_field_run hrun)).mp ⟨kind, hkind⟩ hfault

/-- **Lines stop the reader at their first fault.** -/
theorem isLeast_faultAt_of_run {ls : List (List Char)} {e : Error} (h : State.run {} 1 ls = .error e) :
    IsLeast {n | FaultAt ls n} e.line := by
  obtain ⟨before, line, rest, s, rfl, hrun, hline, herror⟩ := run_eq_error h
  rw [Nat.add_comm] at hline
  have hfault : Faulty (before.getLast?.map trim) (trim line) := by
    by_contra hno
    obtain ⟨kind, hkind⟩ := (exists_ofText_iff (isSome_field_run hrun)).mpr hno
    rw [herror] at hkind
    cases hkind
  refine ⟨⟨before, line, rest, rfl, hline, hfault⟩, fun n hn => ?_⟩
  by_contra hlt
  exact not_faultAt_of_run hrun n (hn.of_append (by omega))

/-! ## The number of forms -/

/-- The reader holds no more forms than a catalog can name, and its field is one of those. -/
structure Bounded (s : State) : Prop where
  entries : ∀ e ∈ s.entries, e.msgstr.length ≤ 17
  pending : s.pending.msgstr.length ≤ 17
  field : ∀ f ∈ s.field, f.InRange

theorem inRange_of_fieldOf {f : Field} (h : fieldOf k = .ok f) : f.InRange := by
  rw [fieldOf] at h
  iterate 4
    split at h
    · cases h
      simp [Field.InRange]
  split at h
  · split at h
    · rename_i n hn
      cases h
      exact Nat.le_of_lt_succ (Text.boundedNat?_eq_some_iff.mp hn).1
    · cases h
  · cases h

theorem length_appendAt (text : List Char) : ∀ (n : Nat) (ss : List (List Char)),
    (appendAt text n ss).length = max (n + 1) ss.length := by
  intro n
  induction n with
  | zero =>
    intro ss
    cases ss with
    | nil => rfl
    | cons s ss =>
      simp only [appendAt, List.length_cons]
      omega
  | succ n ih =>
    intro ss
    cases ss with
    | nil =>
      rw [appendAt, List.length_cons, ih, List.length_nil]
      omega
    | cons s ss =>
      rw [appendAt, List.length_cons, ih, List.length_cons]
      omega

theorem length_msgstr_append {p : Pending} (hp : p.msgstr.length ≤ 17) {f : Field} (hf : f.InRange)
    (text : List Char) : (p.append f text).msgstr.length ≤ 17 := by
  cases f with
  | context | msgid | plural => exact hp
  | msgstr n =>
    have hn : n ≤ 16 := hf
    rw [Pending.append, length_appendAt]
    omega

theorem Bounded.flush {s : State} (h : Bounded s) : Bounded s.flush := by
  refine ⟨fun e he => ?_, Nat.zero_le _, h.field⟩
  rcases List.mem_append.mp he with he | he
  · exact h.entries e he
  · rw [Option.mem_toList, Pending.entry?, Option.map_eq_some_iff] at he
    obtain ⟨id, _, rfl⟩ := he
    rw [List.length_map]
    exact h.pending

theorem Bounded.flushComplete {s : State} (h : Bounded s) : Bounded s.flushComplete := by
  rw [State.flushComplete]
  split
  · exact h.flush
  · exact h

theorem Bounded.step {s : State} (h : Bounded s) {continued : Bool} {kind : Line}
    (hl : Line.ofText continued line = .ok kind) : Bounded (s.step kind) := by
  rcases ofText_cases hl with ⟨_, rfl | rfl⟩ | ⟨_, ⟨_, t, rfl⟩ | ⟨k, f, t, hf, rfl⟩⟩
  · exact ⟨h.flush.entries, h.flush.pending, by simp [State.step]⟩
  · exact ⟨h.flushComplete.entries, h.flushComplete.pending, by simp [State.step]⟩
  · rw [State.step]
    split
    · rename_i f hf
      exact ⟨h.entries, length_msgstr_append h.pending (h.field f hf) t, h.field⟩
    · exact h
  · have hrange := inRange_of_fieldOf hf
    rw [State.step]
    split
    · exact ⟨h.flushComplete.entries, length_msgstr_append h.flushComplete.pending hrange t,
        by simpa using hrange⟩
    · exact ⟨h.entries, length_msgstr_append h.pending hrange t, by simpa using hrange⟩

theorem Bounded.run {ls : List (List Char)} : ∀ {s s' : State} {n : Nat}, Bounded s →
    s.run n ls = .ok s' → Bounded s' := by
  induction ls with
  | nil =>
    intro s s' n h hrun
    cases hrun
    exact h
  | cons l ls ih =>
    intro s s' n h hrun
    rw [State.run] at hrun
    split at hrun
    · cases hrun
    · rename_i kind hkind
      exact ih (h.step hkind) hrun

/-! ## Catalogs -/

theorem parse_eq_error_iff {source : String} {e : Error} :
    parse source = .error e ↔ State.run {} 1 (linesOf source) = .error e := by
  rw [parse_eq]
  cases State.run {} 1 (linesOf source) with
  | error p => simp [Except.map]
  | ok s => exact ⟨nofun, nofun⟩

theorem run_of_parse_eq_ok {source : String} {es : List Entry} (h : parse source = .ok es) :
    ∃ s, State.run {} 1 (linesOf source) = .ok s ∧ es = s.flush.entries := by
  rw [parse_eq] at h
  cases hrun : State.run {} 1 (linesOf source) with
  | error p =>
    rw [hrun] at h
    cases h
  | ok s =>
    rw [hrun] at h
    cases h
    exact ⟨s, rfl, rfl⟩

/-- **A catalog is refused exactly at its first fault.** -/
theorem parse_first_fault (source : String) :
    (∀ n, (∃ p, parse source = .error ⟨n, p⟩) ↔ IsLeast {n | FaultAt (linesOf source) n} n) ∧
      (∀ e, parse source = .error e → ∀ other, (linesOf other).take e.line = (linesOf source).take e.line →
        parse other = .error e) ∧
      ∀ es, parse source = .ok es → ∀ e ∈ es, e.msgstr.length ≤ 17 := by
  refine ⟨fun n => ⟨?_, fun hn => ?_⟩, fun e h other hother => ?_, fun es h => ?_⟩
  · rintro ⟨p, hp⟩
    exact isLeast_faultAt_of_run (parse_eq_error_iff.mp hp)
  · cases h : parse source with
    | error e =>
      have hleast := isLeast_faultAt_of_run (parse_eq_error_iff.mp h)
      exact ⟨e.problem, by rw [hn.unique hleast]⟩
    | ok es =>
      obtain ⟨s, hrun, _⟩ := run_of_parse_eq_ok h
      exact absurd hn.1 (not_faultAt_of_run hrun n)
  · rw [parse_eq_error_iff] at h ⊢
    exact run_of_take h hother
  · obtain ⟨s, hrun, rfl⟩ := run_of_parse_eq_ok h
    have hstart : Bounded {} := ⟨by simp, Nat.zero_le _, by simp⟩
    exact (hstart.run hrun).flush.entries

/-- A numeral too great by one, after a plus sign, decides for whatever comes after it; written with
zeros, the greatest form is named. -/
theorem parse_first_fault_form :
    parse "\uFEFFmsgid \"a\"\r\n\nmsgstr[+17] \"\"\nx" = .error ⟨3, .badPluralIndex "+17"⟩ ∧
      (linesOf "msgid \"a\"\n\nmsgstr[+17] \"\"").take 3 =
        (linesOf "\uFEFFmsgid \"a\"\r\n\nmsgstr[+17] \"\"\nx").take 3 ∧
      parse "msgid \"a\"\n\nmsgstr[+17] \"\"" = .error ⟨3, .badPluralIndex "+17"⟩ ∧
      ∃ es, parse "msgid \"a\"\nmsgstr[+0016] \"b\"" = .ok es ∧ ∀ e ∈ es, e.msgstr.length ≤ 17 := by
  have herror : parse "\uFEFFmsgid \"a\"\r\n\nmsgstr[+17] \"\"\nx" =
      .error ⟨3, .badPluralIndex "+17"⟩ := by decide +kernel
  have hlines : (linesOf "msgid \"a\"\n\nmsgstr[+17] \"\"").take 3 =
      (linesOf "\uFEFFmsgid \"a\"\r\n\nmsgstr[+17] \"\"\nx").take 3 := by decide +kernel
  have hok : (parse "msgid \"a\"\nmsgstr[+0016] \"b\"").toOption.isSome = true := by decide +kernel
  refine ⟨herror, hlines, (parse_first_fault _).2.1 _ herror _ hlines, ?_⟩
  cases hes : parse "msgid \"a\"\nmsgstr[+0016] \"b\"" with
  | error e =>
    rw [hes] at hok
    cases hok
  | ok es => exact ⟨es, rfl, (parse_first_fault _).2.2 es hes⟩

/-- **No faults**: what follows the first blank is no string if there are two, and a string that goes on
has no blank, but both lines are read. -/
theorem gap_and_segment_read :
    (linesOf "msgid  \"a\"" = ["msgid".toList ++ ' ' :: " \"a\"".toList] ∧
        ¬IsString " \"a\"".toList ∧ parse "msgid  \"a\"" = .ok [⟨none, "a", none, []⟩]) ∧
      linesOf "msgid \"a\"\n\"b\"" = ["msgid \"a\"".toList, "\"b\"".toList] ∧
        Word "\"b\"".toList ∧ parse "msgid \"a\"\n\"b\"" = .ok [⟨none, "ab", none, []⟩] := by
  have hgap : ¬IsString " \"a\"".toList := by
    rintro ⟨inner, h, _⟩
    cases h
  exact ⟨⟨by decide +kernel, hgap, by decide +kernel⟩, by decide +kernel, by decide, by decide +kernel⟩

end SiteAssist.Po
