import SiteAssist.Server.Session

/-!
# Which message a method stands for

A message comes in as a method and its parameters.  Whatever the parameters are, a method stands for
one kind of message (`method_of_decode`): no parameters make a folder change of an initialization.  The
messages that a running session works on are told apart by their methods (`Message.IsWork`).
-/

namespace SiteAssist.Server

open Json (Decoder)

/-- The method of a message. -/
def Message.method : Message → String
  | .start _ => "initialize"
  | .initialized => "initialized"
  | .shutdown => "shutdown"
  | .exit => "exit"
  | .didOpen .. => "textDocument/didOpen"
  | .didChange .. => "textDocument/didChange"
  | .didClose _ => "textDocument/didClose"
  | .didChangeWatchedFiles _ => "workspace/didChangeWatchedFiles"
  | .didChangeWorkspaceFolders .. => "workspace/didChangeWorkspaceFolders"
  | .didChangeConfiguration _ => "workspace/didChangeConfiguration"
  | .executeCommand .. => "workspace/executeCommand"
  | .completion .. => "textDocument/completion"
  | .resolve _ => "completionItem/resolve"

namespace Decode

/-- All that a decoder gives has a property. -/
def Yields {α : Type} (P : α → Prop) (d : Decoder α) : Prop := ∀ v a, d v = .ok a → P a

variable {α β : Type} {P : β → Prop}

theorem Yields.object {name : String} {d : Decoder β} (h : Yields P d) :
    Yields P (object name d) := by
  intro v a ha
  unfold Decode.object at ha
  split at ha
  · exact h _ a ha
  · simp at ha

theorem Yields.member {name : String} {d : Decoder β} (h : Yields P d) :
    Yields P (member name d) := by
  intro v a ha
  unfold Decode.member at ha
  split at ha
  · exact h _ a ha
  · simp at ha

theorem yields_map {d : Decoder α} {f : α → β} (h : ∀ a, P (f a)) :
    Yields P fun v => (d v).map f := by
  intro v b hb
  cases hd : d v with
  | error e => simp [hd, Except.map] at hb
  | ok a =>
    simp only [hd, Except.map, Except.ok.injEq] at hb
    exact hb ▸ h a

theorem yields_bind {d : Decoder α} {f : α → Decoder β} (h : ∀ a, Yields P (f a)) :
    Yields P fun v => d v >>= fun a => f a v := by
  intro v b hb
  cases hd : d v with
  | error e => simp [hd, bind, Except.bind] at hb
  | ok a =>
    simp only [hd, bind, Except.bind] at hb
    exact h a v b hb

theorem yields_ok {f : Json → β} (h : ∀ v, P (f v)) : Yields P fun v => .ok (f v) := by
  intro v a ha
  cases ha
  exact h v

theorem yields_params? {method : String} {d : Decoder Message} (h : params? method = some d) :
    Yields (·.method = method) d := by
  unfold params? at h
  split at h <;> cases h
  · exact yields_map fun _ => rfl
  · exact yields_map fun _ => rfl
  · exact .object (.member (.object (yields_bind fun _ => yields_bind fun _ => yields_bind fun _ =>
      yields_ok fun _ => rfl)))
  · exact .object (yields_bind fun _ => yields_bind fun _ => yields_ok fun _ => rfl)
  · exact .object (yields_map fun _ => rfl)
  · exact .object (yields_map fun _ => rfl)
  · exact .object (.member (.object (yields_bind fun _ => yields_bind fun _ => yields_ok fun _ => rfl)))
  · exact .object (yields_map fun _ => rfl)
  · exact .object (yields_bind fun _ => yields_bind fun _ => yields_ok fun _ => rfl)
  · exact .object (yields_bind fun _ => yields_bind fun _ => yields_ok fun _ => rfl)
  · exact yields_map fun _ => rfl

end Decode

/-- **A method stands for one kind of message**, whatever its parameters. -/
theorem method_of_decode {method : String} {params : Option Json} {m : Message}
    (h : Message.decode method params = .ok m) : m.method = method := by
  unfold Message.decode at h
  split at h
  · cases h
    rfl
  · simp at h
  · cases h
    rfl
  · simp at h
  · split at h
    · simp at h
    · simp at h
    · rename_i decode p hd _ _ _ _
      have hy := Decode.yields_params? hd p m
      cases hp : decode p with
      | error e =>
        rw [hp] at h
        cases h
      | ok a =>
        rw [hp] at h
        cases h
        exact hy hp

/-- A message that a running session works on. -/
def Message.IsWork (m : Message) : Prop := m.method ∉ ["initialize", "shutdown", "exit"]

end SiteAssist.Server
