import SiteAssist.Proofs.Po.RoundTrip

/-!
# Runs over the lines of a catalog

The reader goes through the lines of a catalog from the first on.  What it does with some of them does
not depend on what is read later, nor on the entries that were done before, nor on the number of the
first line but for the number in an error.

* `run_append`: **lines are read one after the other**.
* `run_eq_error`, `run_of_take`: a run stops at one line, and what comes after that line does not matter.
* `run_add`, `run_past`: a run from a later line, and one after other entries.
* `run_replicate_nil`: empty lines leave nothing but the entries.
-/

namespace SiteAssist.Po

open Text (trim)

/-- The lines of a catalog, without the byte order mark. -/
def linesOf (source : String) : List (List Char) :=
  Text.lines (Text.dropByteOrderMark source.toList)

theorem parse_eq (source : String) :
    parse source = (State.run {} 1 (linesOf source)).map (·.flush.entries) := rfl

/-! ## One line after the other -/

/-- **Lines are read one after the other.** -/
theorem run_append (ms : List (List Char)) : ∀ (ls : List (List Char)) (s : State) (n : Nat),
    s.run n (ls ++ ms) = (s.run n ls).bind fun s' => s'.run (n + ls.length) ms := by
  intro ls
  induction ls with
  | nil => intro s n; rfl
  | cons l ls ih =>
    intro s n
    rw [List.cons_append, State.run, State.run]
    cases Line.ofText s.field.isSome (trim l) with
    | error p => rfl
    | ok kind =>
      dsimp only
      rw [ih, List.length_cons, Nat.add_assoc, Nat.add_comm 1]

theorem run_singleton (s : State) (n : Nat) (l : List Char) :
    s.run n [l] = match Line.ofText s.field.isSome (trim l) with
      | .error p => .error ⟨n, p⟩
      | .ok kind => .ok (s.step kind) := by
  rw [State.run]
  cases Line.ofText s.field.isSome (trim l) <;> rfl

/-- **Where a run stops**: all lines before it are read, and this one is not. -/
theorem run_eq_error {ls : List (List Char)} {s : State} {n : Nat} {e : Error}
    (h : s.run n ls = .error e) : ∃ before line rest s', ls = before ++ line :: rest ∧
      s.run n before = .ok s' ∧ e.line = n + before.length ∧
        Line.ofText s'.field.isSome (trim line) = .error e.problem := by
  induction ls generalizing s n with
  | nil => cases h
  | cons l ls ih =>
    rw [State.run] at h
    cases hl : Line.ofText s.field.isSome (trim l) with
    | error p =>
      rw [hl] at h
      cases h
      exact ⟨[], l, ls, s, rfl, rfl, rfl, hl⟩
    | ok kind =>
      rw [hl] at h
      obtain ⟨before, line, rest, s', rfl, hrun, hline, herror⟩ := ih h
      refine ⟨l :: before, line, rest, s', rfl, ?_, ?_, herror⟩
      · rw [State.run, hl]
        exact hrun
      · rw [hline, List.length_cons]
        omega

/-- **The lines up to an error** decide it. -/
theorem run_of_take {ls ms : List (List Char)} {e : Error} (h : State.run {} 1 ls = .error e)
    (hms : ms.take e.line = ls.take e.line) : State.run {} 1 ms = .error e := by
  obtain ⟨before, line, rest, s, rfl, hrun, hline, herror⟩ := run_eq_error h
  have htake : (before ++ line :: rest).take e.line = before ++ [line] := by
    rw [hline, Nat.add_comm, List.take_length_add_append]
    rfl
  have hstop : State.run {} 1 (before ++ [line]) = .error e := by
    rw [run_append, hrun]
    dsimp only [Except.bind]
    rw [run_singleton, herror, ← hline]
  rw [← List.take_append_drop e.line ms, run_append, hms, htake, hstop]
  rfl

/-! ## What a run does not depend on -/

/-- **Lines count on** from the number of the first. -/
theorem run_add (k : Nat) : ∀ (ls : List (List Char)) (s : State) (n : Nat),
    s.run (n + k) ls = (s.run n ls).mapError fun e => ⟨e.line + k, e.problem⟩ := by
  intro ls
  induction ls with
  | nil => intro s n; rfl
  | cons l ls ih =>
    intro s n
    rw [State.run, State.run]
    cases Line.ofText s.field.isSome (trim l) with
    | error p => rfl
    | ok kind =>
      dsimp only
      rw [Nat.add_right_comm, ih]

/-- The reader, with some entries read before all it has read. -/
def State.past (s : State) (es : List Entry) : State := { s with entries := es ++ s.entries }

@[simp] theorem State.field_past (s : State) (es : List Entry) : (s.past es).field = s.field := rfl

@[simp] theorem State.pending_past (s : State) (es : List Entry) :
    (s.past es).pending = s.pending := rfl

theorem State.flush_past (s : State) (es : List Entry) : (s.past es).flush = s.flush.past es := by
  simp only [State.flush, State.past, List.append_assoc]

theorem State.flushComplete_past (s : State) (es : List Entry) :
    (s.past es).flushComplete = s.flushComplete.past es := by
  rw [State.flushComplete, State.flushComplete, State.flush_past, State.pending_past]
  split <;> rfl

theorem State.step_past (s : State) (es : List Entry) (kind : Line) :
    (s.past es).step kind = (s.step kind).past es := by
  cases kind with
  | blank => rw [State.step, State.step, State.flush_past]; rfl
  | comment => rw [State.step, State.step, State.flushComplete_past]; rfl
  | continuation t =>
    rw [State.step, State.step, State.field_past]
    cases hf : s.field with
    | none => rfl
    | some f => simp [State.past, hf]
  | field f t =>
    rw [State.step, State.step, State.flushComplete_past]
    split <;> rfl

/-- **What was read before does not matter** to a run. -/
theorem run_past (es : List Entry) : ∀ (ls : List (List Char)) (s : State) (n : Nat),
    (s.past es).run n ls = (s.run n ls).map (·.past es) := by
  intro ls
  induction ls with
  | nil => intro s n; rfl
  | cons l ls ih =>
    intro s n
    rw [State.run, State.run, State.field_past]
    cases Line.ofText s.field.isSome (trim l) with
    | error p => rfl
    | ok kind =>
      dsimp only
      rw [State.step_past, ih]

/-- **Empty lines leave nothing** but the entries. -/
theorem run_replicate_nil (j : Nat) : ∀ (s : State) (n : Nat),
    s.run n (List.replicate (j + 1) []) = .ok { entries := s.flush.entries } := by
  induction j with
  | zero => intro s n; rfl
  | succ j ih =>
    intro s n
    rw [List.replicate_succ, State.run]
    have hblank : Line.ofText s.field.isSome (trim []) = .ok .blank := rfl
    rw [hblank]
    dsimp only
    rw [ih]
    simp [State.step, State.flush, Pending.entry?]

end SiteAssist.Po
