import Mathlib.Data.List.Induction
import SiteAssist.Proofs.Server.Step

/-!
# Runs of a session

A session is a run of calls, each a method with its parameters and the files as they are at the time.
Beside the session a run has a log: what has been sent to the client, and which class files its sites
have been asked for.

* `run_cases`: a session is as new, or over, or **runs by messages that are worked on** alone
  (`Running`).
* `Running.orderly`: a running session is **in order**.
-/

namespace SiteAssist.Server

/-- A message as it comes in, and the files as they then are. -/
structure Call where
  tree : FileTree
  method : String
  params : Option Json

namespace Session

/-- What comes of a call. -/
def outcome (s : Session) (c : Call) : Outcome := s.receive c.tree c.method c.params

/-- The session after some calls. -/
def after (s : Session) (calls : List Call) : Session :=
  calls.foldl (fun s c => (s.outcome c).session) s

/-- All that is sent during some calls. -/
def sentBy : Session → List Call → List Notice
  | _, [] => []
  | s, c :: cs => (s.outcome c).sent ++ sentBy (s.outcome c).session cs

/-- The message of a call, if it is let through. -/
def message? (s : Session) (c : Call) : Option Message :=
  if (refusal? s.phase c.method).isSome then none else (Message.decode c.method c.params).toOption

/-- The lookups during some calls. -/
def lookups : Session → List Call → List Lookup
  | _, [] => []
  | s, c :: cs => ((s.message? c).bind (s.lookup? c.tree)).toList ++ lookups (s.outcome c).session cs

variable {s : Session} {tree : FileTree}

theorem after_concat (s : Session) (cs : List Call) (c : Call) :
    s.after (cs ++ [c]) = ((s.after cs).outcome c).session := by
  rw [after, List.foldl_append]
  rfl

theorem after_append (s : Session) (cs ds : List Call) : s.after (cs ++ ds) = (s.after cs).after ds :=
  List.foldl_append

theorem sentBy_concat (s : Session) (cs : List Call) (c : Call) :
    s.sentBy (cs ++ [c]) = s.sentBy cs ++ ((s.after cs).outcome c).sent := by
  induction cs generalizing s with
  | nil => simp [sentBy, after]
  | cons d cs ih =>
    rw [List.cons_append, sentBy, ih, sentBy, List.append_assoc]
    rfl

theorem lookups_concat (s : Session) (cs : List Call) (c : Call) :
    s.lookups (cs ++ [c]) =
      s.lookups cs ++ (((s.after cs).message? c).bind ((s.after cs).lookup? c.tree)).toList := by
  induction cs generalizing s with
  | nil => simp [lookups, after]
  | cons d cs ih =>
    rw [List.cons_append, lookups, ih, lookups, List.append_assoc]
    rfl

/-! ## Phases -/

theorem entered_of_ne (s : Session) {method : String} (h : ¬(method = "shutdown" ∨ method = "exit")) :
    s.entered method = s := by
  rw [not_or] at h
  rw [entered, if_neg h.1, if_neg h.2]

theorem entered_cases (s : Session) (method : String) :
    s.entered method = s ∨
      (s.entered method).phase = .shutDown ∨ (s.entered method).phase = .exited := by
  rw [entered]
  split
  · exact Or.inr (Or.inl rfl)
  · split
    · exact Or.inr (Or.inr rfl)
    · exact Or.inl rfl

/-- A message that is let through is handled. -/
theorem outcome_of_message {c : Call} {m : Message} (hm : s.message? c = some m) :
    (s.outcome c).session = ((s.entered c.method).handle c.tree m).session ∧
      (s.outcome c).sent = ((s.entered c.method).handle c.tree m).sent ∧
      (s.outcome c).answer = (if isRequestMethod c.method then
        ((s.entered c.method).handle c.tree m).answer else .error .invalidRequest) ∧
      m.method = c.method ∧ refusal? s.phase c.method = none := by
  rw [message?] at hm
  split at hm
  · simp at hm
  · rename_i href
    rw [Bool.not_eq_true, Option.isSome_eq_false_iff, Option.isNone_iff_eq_none] at href
    cases hd : Message.decode c.method c.params with
    | error e => simp [hd, Except.toOption] at hm
    | ok m' =>
      obtain rfl : m' = m := by simpa [hd, Except.toOption] using hm
      have hm := method_of_decode hd
      refine ⟨?_, ?_, ?_, hm, href⟩
      all_goals
        simp only [outcome, receive, href, hd]
        split <;> rfl

/-- A message that is let through and worked on is handled as it comes. -/
theorem outcome_of_isWork {c : Call} {m : Message} (hm : s.message? c = some m) (hw : m.IsWork) :
    (s.outcome c).session = (s.handle c.tree m).session ∧
      (s.outcome c).sent = (s.handle c.tree m).sent := by
  obtain ⟨hs, hsent, _, hmethod, _⟩ := outcome_of_message hm
  have hends : ¬(c.method = "shutdown" ∨ c.method = "exit") := by
    simp only [Message.IsWork, hmethod, List.mem_cons, not_or] at hw
    exact not_or.mpr ⟨hw.2.1, hw.2.2.1⟩
  rw [entered_of_ne s hends] at hs hsent
  exact ⟨hs, hsent⟩

/-- A call whose message is not let through does no more than enter. -/
theorem outcome_of_none {c : Call} (hm : s.message? c = none) :
    (s.outcome c).sent = [] ∧ (∃ e, (s.outcome c).answer = .error e) ∧
      ((s.outcome c).session = s ∨ (s.outcome c).session = s.entered c.method) := by
  rw [message?] at hm
  rw [outcome, receive]
  split at hm
  · rename_i href
    obtain ⟨r, hr⟩ := Option.isSome_iff_exists.mp href
    rw [hr]
    exact ⟨rfl, ⟨r, rfl⟩, Or.inl rfl⟩
  · rename_i href
    rw [Bool.not_eq_true, Option.isSome_eq_false_iff, Option.isNone_iff_eq_none] at href
    cases hd : Message.decode c.method c.params with
    | error e =>
      rw [href]
      exact ⟨rfl, ⟨_, rfl⟩, Or.inr rfl⟩
    | ok m => simp [hd, Except.toOption] at hm

/-! ## Runs -/

/-- A running session, with what it has sent and looked up since it was initialised. -/
inductive Running : Session → List Notice → List Lookup → Prop
  | start (params : Initialization) : Running (({} : Session).initialised params) [] []
  | step {s : Session} {sent : List Notice} {looks : List Lookup} (prior : Running s sent looks)
      (tree : FileTree) {m : Message} (work : m.IsWork) :
      Running (s.handle tree m).session (sent ++ (s.handle tree m).sent)
        (looks ++ (s.lookup? tree m).toList)

theorem Running.orderly {sent : List Notice} {looks : List Lookup} (h : Running s sent looks) :
    s.Orderly := by
  induction h with
  | start params => exact orderly_initialised params
  | step prior tree work ih => exact (step_handle ih tree work).orderly ih

theorem Running.phase {sent : List Notice} {looks : List Lookup} (h : Running s sent looks) :
    s.phase = .running := by
  induction h with
  | start params => rfl
  | step prior tree work ih => exact (step_handle prior.orderly tree work).phase_eq.trans ih

theorem cases_of_refusal_none {phase : Phase} {method : String} (h : refusal? phase method = none) :
    method = "exit" ∨ phase = .uninitialised ∧ method = "initialize" ∨
      phase = .running ∧ method ≠ "initialize" := by
  unfold refusal? at h
  split at h
  · simp at h
  · split at h
    · exact Or.inl ‹_›
    · cases phase with
      | uninitialised => exact Or.inr (Or.inl ⟨rfl, by simpa using h⟩)
      | running => exact Or.inr (Or.inr ⟨rfl, by simpa using h⟩)
      | shutDown | exited => simp at h

/-- The end of a session has come. -/
def IsOver (s : Session) : Prop := s.phase = .shutDown ∨ s.phase = .exited

/-- What comes of a call in any phase. -/
theorem outcome_cases (s : Session) (c : Call) :
    (s.outcome c).session.IsOver ∨
    (s.outcome c).session = s ∧ (s.outcome c).sent = [] ∧ s.message? c = none ∨
    s.phase = .uninitialised ∧ (∃ params, s.message? c = some (.start params) ∧
      (s.outcome c).session = s.initialised params ∧ (s.outcome c).sent = []) ∨
    s.phase = .running ∧ ∃ m : Message, m.IsWork ∧ s.message? c = some m ∧
      (s.outcome c).session = (s.handle c.tree m).session ∧
        (s.outcome c).sent = (s.handle c.tree m).sent := by
  cases hm : s.message? c with
  | none =>
    obtain ⟨hsent, _, hs | hs⟩ := outcome_of_none hm
    · exact Or.inr (Or.inl ⟨hs, hsent, rfl⟩)
    · rcases entered_cases s c.method with he | hover
      · exact Or.inr (Or.inl ⟨hs.trans he, hsent, rfl⟩)
      · exact Or.inl (by rw [IsOver, hs]; exact hover)
  | some m =>
    obtain ⟨hs, hsent, _, hmethod, href⟩ := outcome_of_message hm
    have hover : c.method = "shutdown" ∨ c.method = "exit" → (s.outcome c).session.IsOver := by
      intro hend
      rw [IsOver, hs]
      cases m with
      | shutdown => exact Or.inl rfl
      | exit => exact Or.inr rfl
      | _ => simp [← hmethod, Message.method] at hend
    by_cases hend : c.method = "shutdown" ∨ c.method = "exit"
    · exact Or.inl (hover hend)
    · rw [entered_of_ne s hend] at hs hsent
      rcases cases_of_refusal_none href with hexit | ⟨hphase, hinit⟩ | ⟨hphase, hinit⟩
      · exact absurd (Or.inr hexit) hend
      · refine Or.inr (Or.inr (Or.inl ⟨hphase, ?_⟩))
        cases m with
        | start params => exact ⟨params, rfl, hs, hsent⟩
        | _ => simp [Message.method, hinit] at hmethod
      · refine Or.inr (Or.inr (Or.inr ⟨hphase, m, ?_, rfl, hs, hsent⟩))
        rw [Message.IsWork, hmethod]
        simp [hinit, not_or.mp hend]

/-- A session that has been over stays so. -/
theorem isOver_outcome (h : s.IsOver) (c : Call) : (s.outcome c).session.IsOver := by
  rcases outcome_cases s c with hover | ⟨hs, _⟩ | ⟨hphase, _⟩ | ⟨hphase, _⟩
  · exact hover
  · rw [hs]
    exact h
  · rcases h with h | h <;> simp [h] at hphase
  · rcases h with h | h <;> simp [h] at hphase

theorem isOver_after (h : s.IsOver) (cs : List Call) : (s.after cs).IsOver := by
  induction cs generalizing s with
  | nil => exact h
  | cons c cs ih => exact ih (isOver_outcome h c)

/-- A running session runs after a call or is over. -/
theorem phase_outcome (ho : s.Orderly) (h : s.phase = .running) (c : Call) :
    (s.outcome c).session.IsOver ∨ (s.outcome c).session.phase = .running := by
  rcases outcome_cases s c with hover | ⟨hs, _⟩ | ⟨hphase, _⟩ | ⟨_, m, hwork, _, hs, _⟩
  · exact Or.inl hover
  · rw [hs]
    exact Or.inr h
  · simp [h] at hphase
  · rw [hs]
    exact Or.inr ((step_handle ho c.tree hwork).phase_eq.trans h)

/-- A session **before, during or after** its run. -/
theorem run_cases (calls : List Call) :
    (after {} calls).IsOver ∨
      after {} calls = {} ∧ sentBy {} calls = [] ∧ lookups {} calls = [] ∨
      Running (after {} calls) (sentBy {} calls) (lookups {} calls) := by
  induction calls using List.reverseRecOn with
  | nil => exact Or.inr (Or.inl ⟨rfl, rfl, rfl⟩)
  | append_singleton calls c ih =>
    rw [after_concat, sentBy_concat, lookups_concat]
    rcases ih with hover | hbefore
    · exact Or.inl (isOver_outcome hover c)
    · rcases outcome_cases (after {} calls) c with hover | ⟨hs, hsent, hm⟩ |
          ⟨hphase, params, hm, hs, hsent⟩ | ⟨hphase, m, hwork, hm, hs, hsent⟩
      · exact Or.inl hover
      · rw [hs, hsent, hm, Option.bind_none, Option.toList_none, List.append_nil, List.append_nil]
        exact Or.inr hbefore
      · rcases hbefore with ⟨hnew, hsent', hlooks⟩ | hrun
        · rw [hs, hsent, hm, hnew, hsent', hlooks]
          exact Or.inr (Or.inr (.start params))
        · simp [hrun.phase] at hphase
      · rcases hbefore with ⟨hnew, _⟩ | hrun
        · simp [hnew] at hphase
        · rw [hs, hsent, hm]
          exact Or.inr (Or.inr (hrun.step c.tree hwork))

/-- A session that runs after some calls has come there by messages that are worked on alone. -/
theorem running_of_phase (calls : List Call) (h : (after {} calls).phase = .running) :
    Running (after {} calls) (sentBy {} calls) (lookups {} calls) := by
  rcases run_cases calls with (hover | hover) | ⟨hnew, _⟩ | hrun
  · simp [h] at hover
  · simp [h] at hover
  · simp [hnew] at h
  · exact hrun

/-- Each call of a running session makes a step, if the session runs after it. -/
theorem step_outcome (h : s.Orderly) (hrun : s.phase = .running) {c : Call}
    (hnext : (s.outcome c).session.phase = .running) :
    Step s c.tree ((s.message? c).bind (s.lookup? c.tree)) (s.outcome c).session
      (s.outcome c).sent := by
  rcases outcome_cases s c with (hover | hover) | ⟨hs, hsent, hm⟩ | ⟨hphase, _⟩ |
      ⟨_, m, hwork, hm, hs, hsent⟩
  · simp [hnext] at hover
  · simp [hnext] at hover
  · rw [hs, hsent, hm, Option.bind_none]
    exact .same rfl rfl rfl rfl rfl told_nil
  · simp [hrun] at hphase
  · rw [hs, hsent, hm, Option.bind_some]
    exact step_handle h c.tree hwork

/-- A running session follows each of those before it that was running. -/
theorem follows_after (ho : s.Orderly) (hs : s.phase = .running) {cs : List Call}
    (h : (s.after cs).phase = .running) : s.Follows (s.after cs) := by
  induction cs generalizing s with
  | nil => exact .refl s
  | cons c cs ih =>
    have hnext : (s.outcome c).session.phase = .running := by
      rcases phase_outcome ho hs c with hover | hrun
      · have hlast : (s.after (c :: cs)).IsOver := isOver_after hover cs
        rcases hlast with hlast | hlast <;> simp [h] at hlast
      · exact hrun
    have hstep := step_outcome ho hs hnext
    exact hstep.follows.trans (ih (hstep.orderly ho) hnext h)

theorem follows_of_phase {calls more : List Call} (h : (after {} calls).phase = .running)
    (hmore : (after {} (calls ++ more)).phase = .running) :
    (after {} calls).Follows (after {} (calls ++ more)) := by
  rw [after_append] at hmore ⊢
  exact follows_after (running_of_phase calls h).orderly h hmore

end Session

end SiteAssist.Server
