import SiteAssist.Proofs.Po.Layout

/-!
# Reading a catalog back

The reader goes through a catalog line by line.  What it holds between two lines is the entries that
are done and the fields of the next; an entry that has its msgid counts as done already, as the next
thing to come ends it (`Reading`).  Each part of a writing takes the reader from one such state to the
next (`Goes`): a line that says nothing leaves the entries as they are, a field is added to those
collected, and all fields of an entry make that entry.

* `run_congr`: blanks around a line do not matter.
* `goes_field`: **a field goes in as one text**, however it was cut.
* `goes_entry`: **an entry goes in as one entry**, whether or not the one before it was ended.
* `parse_written`: **every writing of a catalog is read as that catalog**.
-/

namespace SiteAssist.Po

open Text (Blanks Ended Word isBlank trim)

/-! ## Strings -/

theorem decode_append {c : Char} {w : List Char} (h : WrittenChar c w) (rest : List Char) :
    decode (w ++ rest) = (decode rest).map (c :: ·) := by
  cases h with
  | plain h =>
    have hc : c ≠ '\\' := fun e => h (by rw [e]; decide)
    rw [List.singleton_append, decode]
    · exact fun e _ => hc e
    · exact fun _ _ e _ => hc e
  | backslash | quote | lineFeed | carriageReturn | tab => rfl

theorem decode_written {s w : List Char} (h : WrittenChars s w) : decode w = .ok s := by
  induction h with
  | nil => rfl
  | cons first _ ih =>
    rw [decode_append first, ih]
    rfl

/-- A segment in its quotes is read as the segment. -/
theorem unquote_quoted {s w : List Char} (h : Quoted s w) : unquote w = .ok s := by
  obtain ⟨h⟩ := h
  rename_i v
  have hfront : Text.stripPrefix? ['"'] ('"' :: (v ++ ['"'])) = some (v ++ ['"']) :=
    Text.stripPrefix?_append ['"'] (v ++ ['"'])
  rw [unquote, hfront, Option.bind_some, Text.stripSuffix?_append]
  exact decode_written h

theorem notMem_of_writtenChars {s w : List Char} (h : WrittenChars s w) : '\n' ∉ w := by
  induction h with
  | nil => simp
  | cons first _ ih =>
    rw [List.mem_append, not_or]
    refine ⟨?_, ih⟩
    cases first with
    | plain h => simpa [eq_comm] using (not_or.mp (not_or.mp (not_or.mp (by simpa using h)).2).2).1
    | backslash | quote | lineFeed | carriageReturn | tab => decide

theorem Quoted.notMem {s w : List Char} (h : Quoted s w) : '\n' ∉ w := by
  obtain ⟨h⟩ := h
  simpa using notMem_of_writtenChars h

theorem Quoted.head? {s w : List Char} (h : Quoted s w) : w.head? = some '"' := by
  obtain ⟨h⟩ := h
  rfl

theorem Quoted.getLast? {s w : List Char} (h : Quoted s w) : w.getLast? = some '"' := by
  obtain ⟨h⟩ := h
  rw [← List.cons_append, List.getLast?_concat]

/-- A segment with blanks around it. -/
theorem Quoted.trim {a s w b : List Char} (h : Quoted s w) (ha : Blanks a) (hb : Blanks b) :
    Text.trim (a ++ (w ++ b)) = w := by
  refine Text.trim_append (fun c hc => (ha c hc).1) (fun c hc => (hb c hc).1) ?_ ?_
  · rw [h.head?]
    rintro _ ⟨⟩
    decide
  · rw [h.getLast?]
    rintro _ ⟨⟩
    decide

/-! ## Keywords -/

/-- The field is one that a catalog can name. -/
def Field.InRange : Field → Prop
  | .msgstr n => n ≤ maxPluralIndex
  | _ => True

theorem fieldOf_keyword {f : Field} {k : List Char} (h : Keyword f k) (hf : f.InRange) :
    fieldOf k = .ok f := by
  have hforms : ∀ n < maxPluralIndex + 1,
      fieldOf ("msgstr[".toList ++ Nat.toDigits 10 n ++ [']']) = .ok (.msgstr n) := by
    decide +kernel
  cases h with
  | context | msgid | plural | onlyForm => decide
  | form n => exact hforms n (Nat.lt_succ_of_le hf)

theorem isBlank_of_isDigit {c : Char} (h : c.isDigit = true) : isBlank c = false := by
  have hrange : 48 ≤ c.toNat ∧ c.toNat ≤ 57 := by
    simpa [Char.isDigit, UInt32.le_iff_toNat_le] using h
  simp only [isBlank, Bool.or_eq_false_iff, Bool.and_eq_false_iff, decide_eq_false_iff_not,
    beq_eq_false_iff_ne]
  omega

/-- A keyword starts with a letter and holds no blank. -/
theorem Keyword.spec {f : Field} {k : List Char} (h : Keyword f k) :
    k.head? = some 'm' ∧ Word k := by
  cases h with
  | context | msgid | plural | onlyForm => decide
  | form n =>
    refine ⟨rfl, fun c hc => ?_⟩
    rw [List.mem_append, List.mem_append] at hc
    rcases hc with (hc | hc) | hc
    · exact (by decide : Word "msgstr[".toList) c hc
    · exact isBlank_of_isDigit (Nat.isDigit_of_mem_toDigits (by decide) (by decide) hc)
    · exact (by decide : Word [']']) c hc

/-! ## Lines -/

theorem ofText_continuation {s w : List Char} (h : Quoted s w) :
    Line.ofText true w = .ok (.continuation s) := by
  have hu := unquote_quoted h
  obtain ⟨h⟩ := h
  rw [Line.ofText, if_pos rfl, hu]
  rfl

theorem ofText_field {f : Field} {k gap s w : List Char} (hk : Keyword f k) (hf : f.InRange)
    (hgap : Blanks gap) (hne : gap ≠ []) (hw : Quoted s w) (continued : Bool) :
    Line.ofText continued (k ++ gap ++ w) = .ok (.field f s) := by
  obtain ⟨hhead, hword⟩ := hk.spec
  obtain ⟨g, gs, rfl⟩ := List.exists_cons_of_ne_nil hne
  have hcut : Text.cutAtFirst? isBlank (k ++ (g :: gs) ++ w) = some (k, gs ++ w) := by
    rw [List.append_assoc, List.cons_append]
    exact Text.cutAtFirst?_append (hgap g List.mem_cons_self).1 hword (gs ++ w)
  have hgs : Blanks gs := fun c hc => hgap c (List.mem_cons_of_mem g hc)
  have htrim : trim (gs ++ w) = w := by
    have := hw.trim hgs (by decide : Blanks [])
    rwa [List.append_nil] at this
  obtain ⟨t, ht⟩ := List.head?_eq_some_iff.mp hhead
  have hline : k ++ (g :: gs) ++ w = 'm' :: (t ++ (g :: gs) ++ w) := by rw [ht]; rfl
  rw [hline, Line.ofText]
  · rw [← hline, hcut]
    simp only [htrim, unquote_quoted hw, fieldOf_keyword hk hf]
    rfl
  · simp
  · simp
  · simp

theorem trim_fieldLine {f : Field} {k a gap s w b : List Char} (hk : Keyword f k) (ha : Blanks a)
    (hw : Quoted s w) (hb : Blanks b) : trim (a ++ (k ++ gap ++ w ++ b)) = k ++ gap ++ w := by
  refine Text.trim_append (fun c hc => (ha c hc).1) (fun c hc => (hb c hc).1) ?_ ?_
  · rw [List.append_assoc, List.head?_append, hk.spec.1, Option.some_or]
    rintro _ ⟨⟩
    decide
  · rw [List.getLast?_append, hw.getLast?, Option.some_or]
    rintro _ ⟨⟩
    decide

/-! ## Going from state to state -/

/-- Some lines take the reader from one state to another, whatever comes after them. -/
def Goes (s : State) (ls : List (List Char)) (s' : State) : Prop :=
  ∀ n rest, s.run n (ls ++ rest) = s'.run (n + ls.length) rest

theorem goes_nil (s : State) : Goes s [] s := fun _ _ => rfl

theorem Goes.append {s s' s'' : State} {ls ms : List (List Char)} (h : Goes s ls s')
    (h' : Goes s' ms s'') : Goes s (ls ++ ms) s'' := by
  intro n rest
  rw [List.append_assoc, h, h', List.length_append, Nat.add_assoc]

theorem goes_line {s : State} {line : List Char} {kind : Line}
    (h : Line.ofText s.field.isSome (trim line) = .ok kind) : Goes s [line] (s.step kind) := by
  intro n rest
  rw [List.singleton_append, State.run, h]
  rfl

theorem Goes.cons {s s' : State} {line : List Char} {k : Line} {ls : List (List Char)}
    (h : Line.ofText s.field.isSome (trim line) = .ok k) (h' : Goes (s.step k) ls s') :
    Goes s (line :: ls) s' := (goes_line h).append h'

/-- **Blanks around lines do not matter.** -/
theorem run_congr : ∀ {ls ms : List (List Char)}, ls.map trim = ms.map trim →
    ∀ (s : State) (n : Nat), s.run n ls = s.run n ms := by
  intro ls
  induction ls with
  | nil =>
    intro ms h s n
    rw [List.map_nil, eq_comm, List.map_eq_nil_iff] at h
    rw [h]
  | cons l ls ih =>
    intro ms h s n
    rw [List.map_cons, eq_comm, List.map_eq_cons_iff] at h
    obtain ⟨m, ms, rfl, hm, hms⟩ := h
    rw [State.run, State.run, hm]
    cases Line.ofText s.field.isSome (trim l) with
    | error problem => rfl
    | ok kind => exact ih hms.symm _ _

/-! ## Fields -/

theorem appendAt_appendAt (a b : List Char) : ∀ (n : Nat) (ss : List (List Char)),
    appendAt b n (appendAt a n ss) = appendAt (a ++ b) n ss := by
  intro n
  induction n with
  | zero => intro ss; cases ss <;> simp [appendAt]
  | succ n ih => intro ss; cases ss <;> simp [appendAt, ih]

theorem append_append (p : Pending) (f : Field) (a b : List Char) :
    (p.append f a).append f b = p.append f (a ++ b) := by
  cases f with
  | context | msgid | plural => simp [Pending.append]
  | msgstr n => rw [Pending.append, Pending.append, Pending.append, appendAt_appendAt]

theorem appendAt_length (text : List Char) (ss : List (List Char)) :
    appendAt text ss.length ss = ss ++ [text] := by
  induction ss with
  | nil => rfl
  | cons s ss ih => rw [List.length_cons, appendAt, ih, List.cons_append]

theorem step_continuation (s : State) (f : Field) (a b : List Char) :
    (s.step (.field f a)).step (.continuation b) = s.step (.field f (a ++ b)) := by
  simp only [State.step, append_append]

theorem goes_continued {rest : List Char} {ls : List (List Char)} (h : Continued rest ls)
    (s : State) (f : Field) (a : List Char) :
    Goes (s.step (.field f a)) ls (s.step (.field f (a ++ rest))) := by
  induction h generalizing a with
  | nil =>
    rw [List.append_nil]
    exact goes_nil _
  | @cons _ t _ _ rest _ ha hw hb _ ih =>
    refine .cons (k := .continuation t) ?_ ?_
    · rw [hw.trim ha hb]
      exact ofText_continuation hw
    · rw [step_continuation, ← List.append_assoc]
      exact ih _

/-- **A field goes in as one text**, however it was cut. -/
theorem goes_field {f : Field} {text : String} {ls : List (List Char)} (h : WrittenField f text ls)
    (hf : f.InRange) (s : State) : Goes s ls (s.step (.field f text.toList)) := by
  obtain ⟨hk, ha, hgap, hne, hw, hb, more, ht⟩ := h
  rw [ht]
  refine .cons (k := .field f _) ?_ (goes_continued more s f _)
  rw [trim_fieldLine hk ha hw hb]
  exact ofText_field hk hf hgap hne hw _

/-! ## Entries -/

/-- The reader has read some entries and collected some fields of the next.  Fields that make an
entry already are taken as read. -/
def Reading (s : State) (es : List Entry) (p : Pending) : Prop :=
  s.flushComplete.entries = es ∧ s.flushComplete.pending = p

theorem flushComplete_of_none {s : State} (h : s.pending.msgid = none) : s.flushComplete = s := by
  simp [State.flushComplete, h]

theorem reading_of_none {s : State} {es : List Entry} {p : Pending} (he : s.entries = es)
    (hp : s.pending = p) (h : p.msgid = none) : Reading s es p := by
  rw [Reading, flushComplete_of_none (by rw [hp, h])]
  exact ⟨he, hp⟩

theorem reading_of_entry? {s : State} {e : Entry} (h : s.pending.entry? = some e) :
    Reading s (s.entries ++ [e]) {} := by
  have hid : s.pending.msgid.isSome = true := by
    rw [Pending.entry?, Option.map_eq_some_iff] at h
    obtain ⟨id, hid, _⟩ := h
    rw [hid]
    rfl
  rw [Reading, State.flushComplete, if_pos hid, State.flush, h]
  exact ⟨rfl, rfl⟩

/-- Nothing more comes of a flush when no fields wait. -/
theorem Reading.flush {s : State} {es : List Entry} (h : Reading s es {}) :
    s.flush.entries = es ∧ s.flush.pending = {} := by
  cases hid : s.pending.msgid with
  | none =>
    obtain ⟨he, hp⟩ := h
    rw [flushComplete_of_none hid] at he hp
    rw [State.flush, he, hp]
    exact ⟨List.append_nil es, rfl⟩
  | some id =>
    rw [Reading, State.flushComplete, if_pos (by rw [hid]; rfl)] at h
    exact h

/-- A line that says nothing leaves the entries as they are. -/
theorem goes_idle {line : List Char} (h : Idle line) {s : State} {es : List Entry}
    (hs : Reading s es {}) : ∃ s', Goes s [line] s' ∧ Reading s' es {} := by
  cases h with
  | blank hb =>
    obtain ⟨he, hp⟩ := hs.flush
    have hkind : Line.ofText s.field.isSome (trim line) = .ok .blank := by
      rw [Text.trim_of_blanks fun c hc => (hb c hc).1]
      rfl
    exact ⟨_, goes_line hkind, reading_of_none he hp rfl⟩
  | @comment a text ha ht =>
    obtain ⟨he, hp⟩ := hs
    obtain ⟨rest, hrest⟩ := Text.exists_trim_cons (fun c hc => (ha c hc).1)
      (by decide : isBlank '#' = false) text
    have hkind : Line.ofText s.field.isSome (trim (a ++ '#' :: text)) = .ok .comment := by
      rw [hrest]
      rfl
    exact ⟨_, goes_line hkind, reading_of_none he hp rfl⟩

theorem goes_context {text : Option String} {ls : List (List Char)}
    (h : WrittenField? .context text ls) {s : State} {es : List Entry} (hs : Reading s es {}) :
    ∃ s', Goes s ls s' ∧ Reading s' es { context := text.map String.toList } := by
  cases h with
  | absent => exact ⟨s, goes_nil s, hs⟩
  | @present text _ h =>
    obtain ⟨he, hp⟩ := hs
    refine ⟨_, goes_field h trivial s, reading_of_none he ?_ rfl⟩
    simp [State.step, Field.startsEntry, Pending.append, hp]

theorem goes_msgid {text : String} {ls : List (List Char)} (h : WrittenField .msgid text ls)
    {s : State} {es : List Entry} {p : Pending} (hs : Reading s es p) (hp : p.msgid = none) :
    ∃ s', Goes s ls s' ∧ s'.entries = es ∧ s'.pending = { p with msgid := some text.toList } := by
  obtain ⟨he, rfl⟩ := hs
  refine ⟨_, goes_field h trivial s, ?_, ?_⟩
  · simpa [State.step, Field.startsEntry] using he
  · simp [State.step, Field.startsEntry, Pending.append, hp]

theorem goes_plural {text : Option String} {ls : List (List Char)}
    (h : WrittenField? .plural text ls) {s : State} (hs : s.pending.plural = none) :
    ∃ s', Goes s ls s' ∧ s'.entries = s.entries ∧
      s'.pending = { s.pending with plural := text.map String.toList } := by
  cases h with
  | absent => exact ⟨s, goes_nil s, rfl, by rw [Option.map_none, ← hs]⟩
  | @present text _ h =>
    refine ⟨_, goes_field h trivial s, rfl, ?_⟩
    simp [State.step, Field.startsEntry, Pending.append, hs]

theorem goes_forms {n : Nat} {texts : List String} {ls : List (List Char)}
    (h : WrittenForms n texts ls) {s : State} (hn : n + texts.length ≤ maxPluralIndex + 1)
    (hs : s.pending.msgstr.length = n) :
    ∃ s', Goes s ls s' ∧ s'.entries = s.entries ∧
      s'.pending = { s.pending with msgstr := s.pending.msgstr ++ texts.map String.toList } := by
  induction h generalizing s with
  | nil => exact ⟨s, goes_nil s, rfl, by simp⟩
  | @cons n text texts ls more first _ ih =>
    rw [List.length_cons] at hn
    have hf : (Field.msgstr n).InRange := by
      rw [Field.InRange]
      omega
    have hone := goes_field first hf s
    have hpending : (s.step (.field (.msgstr n) text.toList)).pending =
        { s.pending with msgstr := s.pending.msgstr ++ [text.toList] } := by
      rw [← appendAt_length, hs]
      rfl
    obtain ⟨s', hmore, he, hp⟩ := ih (s := s.step (.field (.msgstr n) text.toList)) (by omega)
      (by rw [hpending, List.length_append, hs]; rfl)
    refine ⟨s', hone.append hmore, he, ?_⟩
    rw [hp, hpending, List.append_assoc]
    rfl

/-- **An entry goes in as one entry**, whether or not the one before it was ended. -/
theorem goes_entry {e : Entry} {ls : List (List Char)} (h : WrittenEntry e ls)
    (hn : e.msgstr.length ≤ maxPluralIndex + 1) {s : State} {es : List Entry}
    (hs : Reading s es {}) : ∃ s', Goes s ls s' ∧ Reading s' (es ++ [e]) {} := by
  obtain ⟨context, msgid, plural, forms⟩ := h
  obtain ⟨s₁, h₁, hr₁⟩ := goes_context context hs
  obtain ⟨s₂, h₂, he₂, hp₂⟩ := goes_msgid msgid hr₁ rfl
  obtain ⟨s₃, h₃, he₃, hp₃⟩ := goes_plural plural (s := s₂) (by rw [hp₂])
  obtain ⟨s₄, h₄, he₄, hp₄⟩ := goes_forms forms (s := s₃) (by omega) (by rw [hp₃, hp₂]; rfl)
  refine ⟨s₄, h₁.append (h₂.append (h₃.append h₄)), ?_⟩
  have hentry : s₄.pending.entry? = some e := by
    rw [hp₄, hp₃, hp₂]
    simp [Pending.entry?, Function.comp_def]
  have := reading_of_entry? hentry
  rwa [he₄, he₃, he₂] at this

theorem goes_lines {es : List Entry} {ls : List (List Char)} (h : WrittenLines es ls)
    (hn : ∀ e ∈ es, e.msgstr.length ≤ maxPluralIndex + 1) {s : State} {done : List Entry}
    (hs : Reading s done {}) : ∃ s', Goes s ls s' ∧ Reading s' (done ++ es) {} := by
  induction h generalizing s done with
  | nil => exact ⟨s, goes_nil s, by rwa [List.append_nil]⟩
  | idle h _ ih =>
    obtain ⟨s₁, h₁, hr₁⟩ := goes_idle h hs
    obtain ⟨s₂, h₂, hr₂⟩ := ih hn hr₁
    exact ⟨s₂, h₁.append h₂, hr₂⟩
  | @entry e es _ _ first _ ih =>
    obtain ⟨s₁, h₁, hr₁⟩ := goes_entry first (hn e List.mem_cons_self) hs
    obtain ⟨s₂, h₂, hr₂⟩ := ih (fun x hx => hn x (List.mem_cons_of_mem e hx)) hr₁
    refine ⟨s₂, h₁.append h₂, ?_⟩
    rwa [List.append_assoc] at hr₂

/-! ## Catalogs -/

/-- The text stays on one line and is not led by a byte order mark. -/
def OneLine (line : List Char) : Prop := '\n' ∉ line ∧ line.head? ≠ some '\uFEFF'

theorem oneLine_append {a s : List Char} (ha : Blanks a) (hs : OneLine s) : OneLine (a ++ s) := by
  refine ⟨fun hm => (List.mem_append.mp hm).elim ha.notMem hs.1, ?_⟩
  cases a with
  | nil => exact hs.2
  | cons c a =>
    have hc := (ha c List.mem_cons_self).1
    intro h
    rw [List.cons_append, List.head?_cons, Option.some.injEq] at h
    rw [h] at hc
    exact absurd hc (by decide)

theorem Continued.oneLine {rest : List Char} {ls : List (List Char)} (h : Continued rest ls) :
    ∀ l ∈ ls, OneLine l := by
  induction h with
  | nil => simp
  | @cons a s w b _ ls ha hw hb _ ih =>
    have hsegment : OneLine (w ++ b) := by
      refine ⟨fun hm => (List.mem_append.mp hm).elim hw.notMem hb.notMem, ?_⟩
      rw [List.head?_append, hw.head?, Option.some_or]
      decide
    exact List.forall_mem_cons.mpr ⟨oneLine_append ha hsegment, ih⟩

theorem WrittenField.oneLine {f : Field} {text : String} {ls : List (List Char)}
    (h : WrittenField f text ls) : ∀ l ∈ ls, OneLine l := by
  obtain ⟨hk, ha, hgap, hne, hw, hb, more, ht⟩ := h
  rename_i keyword a gap s w b rest ls
  obtain ⟨hhead, hword⟩ := hk.spec
  have hkeyword : '\n' ∉ keyword := fun hm => absurd (hword _ hm) (by decide)
  have hline : OneLine (keyword ++ gap ++ w ++ b) := by
    refine ⟨?_, ?_⟩
    · simp only [List.mem_append, not_or]
      exact ⟨⟨⟨hkeyword, hgap.notMem⟩, hw.notMem⟩, hb.notMem⟩
    · rw [List.append_assoc, List.append_assoc, List.head?_append, hhead, Option.some_or]
      decide
  exact List.forall_mem_cons.mpr ⟨oneLine_append ha hline, more.oneLine⟩

theorem WrittenField?.oneLine {f : Field} {text : Option String} {ls : List (List Char)}
    (h : WrittenField? f text ls) : ∀ l ∈ ls, OneLine l := by
  cases h with
  | absent => simp
  | present h => exact h.oneLine

theorem WrittenForms.oneLine {n : Nat} {texts : List String} {ls : List (List Char)}
    (h : WrittenForms n texts ls) : ∀ l ∈ ls, OneLine l := by
  induction h with
  | nil => simp
  | cons first _ ih => exact List.forall_mem_append.mpr ⟨first.oneLine, ih⟩

theorem Idle.oneLine {line : List Char} (h : Idle line) : OneLine line := by
  cases h with
  | blank hb => simpa using oneLine_append hb (by decide : '\n' ∉ [] ∧ [].head? ≠ some '\uFEFF')
  | @comment a text ha ht =>
    refine oneLine_append ha ⟨?_, by rw [List.head?_cons]; decide⟩
    rw [List.mem_cons, not_or]
    exact ⟨by decide, ht⟩

theorem WrittenLines.oneLine {es : List Entry} {ls : List (List Char)} (h : WrittenLines es ls) :
    ∀ l ∈ ls, OneLine l := by
  induction h with
  | nil => simp
  | idle h _ ih => exact List.forall_mem_cons.mpr ⟨h.oneLine, ih⟩
  | entry first _ ih =>
    obtain ⟨context, msgid, plural, forms⟩ := first
    simp only [List.forall_mem_append]
    exact ⟨⟨context.oneLine, msgid.oneLine, plural.oneLine, forms.oneLine⟩, ih⟩

theorem dropByteOrderMark_lead {lead body : List Char} (hl : IsLead lead)
    (hb : body.head? ≠ some '\uFEFF') : Text.dropByteOrderMark (lead ++ body) = body := by
  obtain rfl | rfl := hl
  · rw [List.nil_append, Text.dropByteOrderMark]
    intro cs e
    exact hb (by rw [e]; rfl)
  · rfl

theorem head?_of_ended {ls : List (List Char)} {text : List Char} (h : Ended ls text)
    (hl : ∀ l ∈ ls, OneLine l) : text.head? ≠ some '\uFEFF' := by
  cases h with
  | nil => simp
  | last _ => exact (hl _ List.mem_cons_self).2
  | @cons line e text ls he _ =>
    have hline := (hl line List.mem_cons_self).2
    rw [List.append_assoc, List.head?_append]
    cases line with
    | nil => obtain rfl | rfl := he <;> simp
    | cons c line => exact hline

/-- **Every catalog can be written, and every writing of it is read as that catalog.** -/
theorem parse_written {es : List Entry} (hn : ∀ e ∈ es, e.msgstr.length ≤ maxPluralIndex + 1) :
    (∃ text, Written es text) ∧ ∀ text, Written es text → parse text = .ok es := by
  refine ⟨exists_written es, ?_⟩
  rintro text ⟨lead, ls, body, htext, hlead, hlines, hbody⟩
  have hone := hlines.oneLine
  have hdrop : Text.dropByteOrderMark text.toList = body := by
    rw [htext]
    exact dropByteOrderMark_lead hlead (head?_of_ended hbody hone)
  have hstart : Reading {} [] {} := reading_of_none rfl rfl rfl
  obtain ⟨s, hgoes, hs⟩ := goes_lines hlines hn hstart
  have hrun : State.run {} 1 (Text.lines body) = .ok s := by
    rw [run_congr (hbody.map_trim_lines fun l hl => (hone l hl).1), ← List.append_nil ls,
      hgoes 1 []]
    rfl
  rw [parse, hdrop, hrun]
  exact congrArg Except.ok hs.flush.1

/-- Two entries that run together: the second has no form, and nothing ends the first. -/
def crowded : List Entry :=
  [⟨some "a\\", "x\"\n", some "", ["\t", "y"]⟩, ⟨none, "", none, []⟩]

/-- A writing with cut strings, mixed line ends, blanks of several kinds and no end of the last line. -/
def crowdedText : String :=
  "\uFEFF#~ msgid\r\n\t\r\n\u00A0msgctxt\u2003\"a\\\\\"\r\nmsgid  \"\" \n \"x\"\n\"\\\"\\n\"\n" ++
    "msgid_plural \"\"\nmsgstr \"\t\"\r\nmsgstr[1] \"y\"\nmsgid \"\"\n  # end"

theorem parse_written_crowded :
    (∀ e ∈ crowded, e.msgstr.length ≤ maxPluralIndex + 1) ∧ Written crowded crowdedText ∧
      parse crowdedText = .ok crowded := by
  have hforms : ∀ e ∈ crowded, e.msgstr.length ≤ maxPluralIndex + 1 := by decide
  have hnone : Blanks [] := by decide
  have hspace : Blanks [' '] := by decide
  have hempty : Quoted [] ['"', '"'] := .mk .nil
  have hcontext : WrittenField .context "a\\" ["\u00A0msgctxt\u2003\"a\\\\\"".toList] :=
    .mk (a := ['\u00A0']) (g := ['\u2003']) .context (by decide) (by decide) (by decide)
      (.mk (.cons (.plain (by decide)) (.cons .backslash .nil))) hnone .nil rfl
  have hmsgid : WrittenField .msgid "x\"\n"
      ["msgid  \"\" ".toList, " \"x\"".toList, "\"\\\"\\n\"".toList] :=
    .mk (a := []) (g := [' ', ' ']) .msgid hnone (by decide) (by decide) hempty hspace
      (.cons hspace (.mk (.cons (.plain (by decide)) .nil)) hnone
        (.cons hnone (.mk (.cons .quote (.cons .lineFeed .nil))) hnone .nil)) rfl
  have hplural : WrittenField .plural "" ["msgid_plural \"\"".toList] :=
    .mk (a := []) .plural hnone hspace (by decide) hempty hnone .nil rfl
  have hfirst : WrittenField (.msgstr 0) "\t" ["msgstr \"\t\"".toList] :=
    .mk (a := []) .onlyForm hnone hspace (by decide) (.mk (.cons (.plain (by decide)) .nil)) hnone
      .nil rfl
  have hsecond : WrittenField (.msgstr 1) "y" ["msgstr[1] \"y\"".toList] :=
    .mk (a := []) (.form 1) hnone hspace (by decide) (.mk (.cons (.plain (by decide)) .nil)) hnone
      .nil rfl
  have hlast : WrittenField .msgid "" ["msgid \"\"".toList] :=
    .mk (a := []) .msgid hnone hspace (by decide) hempty hnone .nil rfl
  have hobsolete : Idle "#~ msgid".toList := .comment (a := []) hnone (by decide)
  have hend : Idle "  # end".toList := .comment (a := [' ', ' ']) (by decide) (by decide)
  have hlines : WrittenLines crowded _ :=
    .idle hobsolete (.idle (.blank (b := ['\t']) (by decide))
      (.entry (.mk (.present hcontext) hmsgid (.present hplural) (.cons hfirst (.cons hsecond .nil)))
        (.entry (.mk .absent hlast .absent .nil) (.idle hend .nil))))
  have hwritten : Written crowded crowdedText := by
    refine ⟨['\uFEFF'], _, _, ?_, Or.inr rfl, hlines,
      .cons (Or.inr rfl) (.cons (Or.inr rfl) (.cons (Or.inr rfl) (.cons (Or.inl rfl)
        (.cons (Or.inl rfl) (.cons (Or.inl rfl) (.cons (Or.inl rfl) (.cons (Or.inr rfl)
          (.cons (Or.inl rfl) (.cons (Or.inl rfl) (.last (by decide)))))))))))⟩
    decide +kernel
  exact ⟨hforms, hwritten, (parse_written hforms).2 _ hwritten⟩

/-- A keyword and its string have to be two words. -/
example : parse "msgid\"a\"" = .error ⟨1, .missingString⟩ := by decide +kernel

end SiteAssist.Po
