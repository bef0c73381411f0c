import SiteAssist.Proofs.Document.Place
import SiteAssist.Proofs.FileTree.Locating
import SiteAssist.Server.Session

/-!
# The documents of a session

A client keeps the texts of its open documents and tells the server of each change, by positions that
it works out from its own text.  The server has a copy of each document and knows no more than what
it is told.

* `document?_handle`: a message changes **no document but the one it is about**; messages that are
  about none change none.
* `text_foldl_changed`: the changes that a client sends for its edits make **the same text** of the
  same text, later positions being taken of the text that the earlier edits left.
* `documents_agree`: **the texts of the client and of the server agree** after any exchange of
  messages.
-/

namespace SiteAssist.Server

open Document (Cut positionAt lastLine)

/-! ## Which document a message is about -/

/-- The URI of the document that a message opens, changes or closes. -/
def Message.document? : Message → Option String
  | .didOpen uri _ _ => some uri
  | .didChange uri _ => some uri
  | .didClose uri => some uri
  | _ => none

namespace Session

variable {tree : FileTree} {s : Session}

theorem document?_closed (s : Session) (uri u : String) :
    (s.closed uri).document? u = if u = uri then none else s.document? u := by
  have h := lookup_filter_key (fun v => decide (v ≠ uri)) u s.documents
  rw [document?, closed]
  refine h.trans ?_
  by_cases hu : u = uri <;> simp [hu, document?]

theorem document?_opened (s : Session) (uri : String) (d : Document) (u : String) :
    (s.opened uri d).document? u = if u = uri then some d else s.document? u := by
  rw [document?, opened, List.lookup_cons]
  by_cases hu : u = uri
  · rw [beq_iff_eq.mpr hu, if_pos hu]
  · rw [beq_false_of_ne hu, if_neg hu]
    exact (document?_closed s uri u).trans (if_neg hu)

theorem document?_documentChanged (s : Session) (uri : String) (changes : List DocumentChange)
    (u : String) :
    (s.documentChanged uri changes).document? u =
      if u = uri then (s.document? u).map fun d => changes.foldl changed d else s.document? u := by
  rw [documentChanged]
  cases hd : s.document? uri with
  | none =>
    by_cases hu : u = uri
    · rw [if_pos hu, hu, hd]
      rfl
    · rw [if_neg hu]
  | some d =>
    rw [document?_opened]
    by_cases hu : u = uri
    · rw [if_pos hu, if_pos hu, hu, hd]
      rfl
    · rw [if_neg hu, if_neg hu]

/-! ## Messages about no document -/

theorem documents_checkTool (site : Site) (s : Session) (tool : Tool) :
    (checkTool tree site s tool).1.documents = s.documents := by
  rw [checkTool]
  split
  · rfl
  · split
    · rfl
    · split <;> rfl

theorem documents_forEach {α : Type} {step : Session → α → Sent Session}
    (h : ∀ s a, (step s a).1.documents = s.documents) :
    ∀ (as : List α) (s : Session), (forEach step s as).1.documents = s.documents := by
  intro as
  induction as with
  | nil => intro s; rfl
  | cons a as ih =>
    intro s
    rw [forEach]
    exact (ih _).trans (h s a)

theorem documents_checkTools (s : Session) (site : Site) :
    (checkTools tree s site).1.documents = s.documents :=
  documents_forEach (documents_checkTool site) _ s

theorem documents_announce (s : Session) (site : Site) :
    (announce tree s site).1.documents = s.documents := documents_checkTools s site

theorem documents_addSites (s : Session) (folders : List Path) :
    (addSites tree s folders).1.documents = s.documents :=
  documents_forEach documents_announce _ _

theorem documents_foldersChanged (s : Session) (removed added : List Path) :
    (foldersChanged tree s removed added).1.documents = s.documents :=
  documents_addSites _ added

theorem documents_filesChanged (s : Session) (events : List (Path × FileEvent)) :
    (filesChanged tree s events).1.documents = s.documents := by
  rw [filesChanged]
  split <;> rfl

theorem documents_configured (s : Session) (payload : Json) :
    (configured tree s payload).1.documents = s.documents := by
  rw [configured]
  split
  · rfl
  · exact documents_forEach documents_checkTools _ _

theorem documents_resolved (s : Session) (item : Json) :
    (resolved tree s item).2.documents = s.documents := by
  rw [resolved]
  split
  · rfl
  · split
    · rfl
    · dsimp only
      split <;> rfl

theorem documents_of_executed {command : String} {arguments : List Json} {reply : Reply}
    {after : Session} (h : executed tree s command arguments = .ok (reply, after)) :
    after.documents = s.documents := by
  unfold executed at h
  split at h
  · simp at h
  · split at h
    · split at h
      · cases h
        rfl
      · cases h
        rfl
    · simp at h

/-- **A message changes no document but the one it is about.** -/
theorem document?_handle (tree : FileTree) (s : Session) (m : Message) {uri : String}
    (h : m.document? ≠ some uri) :
    (s.handle tree m).session.document? uri = s.document? uri := by
  have of_documents : ∀ {after : Session}, after.documents = s.documents →
      after.document? uri = s.document? uri := fun e => by rw [document?, e, document?]
  cases m with
  | didOpen u language text =>
    exact (document?_opened s u _ uri).trans (if_neg fun e => h (congrArg some e.symm))
  | didChange u changes =>
    exact (document?_documentChanged s u changes uri).trans (if_neg fun e => h (congrArg some e.symm))
  | didClose u =>
    exact (document?_closed s u uri).trans (if_neg fun e => h (congrArg some e.symm))
  | start _ | shutdown | exit | completion _ _ => rfl
  | initialized => exact of_documents (documents_addSites s s.folders)
  | didChangeWatchedFiles changes => exact of_documents (documents_filesChanged s _)
  | didChangeWorkspaceFolders removed added =>
    exact of_documents (documents_foldersChanged s _ _)
  | didChangeConfiguration payload => exact of_documents (documents_configured s payload)
  | executeCommand command arguments =>
    rw [handle]
    split
    · rename_i he
      exact of_documents (documents_of_executed he)
    · rfl
  | resolve item => exact of_documents (documents_resolved s item)

end Session

/-! ## What a client does to its texts -/

/-- What a client does to a text of its own. -/
inductive Edit where
  | all (new : String)
  | splice (start stop : Nat) (new : String)

/-- The text after an edit. -/
def Edit.apply (text : List Char) : Edit → List Char
  | .all new => new.toList
  | .splice i j new => text.take i ++ new.toList ++ text.drop j

/-- The change that the client tells of when it makes an edit. -/
def Edit.change (text : List Char) : Edit → DocumentChange
  | .all new => ⟨none, new⟩
  | .splice i j new => ⟨some (positionAt text i, positionAt text j), new⟩

/-- An edit lies between two cuts of the text. -/
def Edit.Fits (text : List Char) : Edit → Prop
  | .all _ => True
  | .splice i j _ => i ≤ j ∧ Cut text i ∧ Cut text j

instance (text : List Char) : (e : Edit) → Decidable (e.Fits text)
  | .all _ => inferInstanceAs (Decidable True)
  | .splice _ _ _ => inferInstanceAs (Decidable (_ ∧ _ ∧ _))

/-- The changes for several edits, each of the text that those before it left. -/
def changesFor : List Char → List Edit → List DocumentChange
  | _, [] => []
  | text, e :: es => e.change text :: changesFor (e.apply text) es

/-- Each edit lies between two cuts of the text that those before it left. -/
def AllFit : List Char → List Edit → Prop
  | _, [] => True
  | text, e :: es => e.Fits text ∧ AllFit (e.apply text) es

instance decidableAllFit : (text : List Char) → (es : List Edit) → Decidable (AllFit text es)
  | _, [] => inferInstanceAs (Decidable True)
  | text, e :: es =>
    have := decidableAllFit (e.apply text) es
    inferInstanceAs (Decidable (_ ∧ _))

theorem text_changed {d : Document} {e : Edit} (h : e.Fits d.text) :
    (Session.changed d (e.change d.text)).text = e.apply d.text := by
  cases e with
  | all new => rfl
  | splice i j new => exact Document.edit_positionAt h.2.1 h.2.2 h.1 new.toList

/-- **The changes sent for some edits make the same text of the same text.** -/
theorem text_foldl_changed : ∀ {es : List Edit} {d : Document}, AllFit d.text es →
    ((changesFor d.text es).foldl Session.changed d).text = es.foldl Edit.apply d.text := by
  intro es
  induction es with
  | nil => intro d _; rfl
  | cons e es ih =>
    intro d h
    have he := text_changed h.1
    have hrest := h.2
    rw [changesFor, List.foldl_cons, List.foldl_cons]
    rw [← he] at hrest ⊢
    exact ih hrest

/-- The texts of the open documents, as the client has them. -/
abbrev Client := String → Option (List Char)

/-- The client with the text of one document set. -/
def Client.set (c : Client) (uri : String) (text : Option (List Char)) : Client := fun u =>
  if u = uri then text else c u

/-- What the client does next. -/
inductive Action where
  | opens (uri languageId text : String)
  | edits (uri : String) (es : List Edit)
  | closes (uri : String)
  /-- tells of changes to a document that is not open -/
  | strays (uri : String) (changes : List DocumentChange)
  /-- sends a message that is about no document's text -/
  | sends (m : Message)

namespace Action

/-- The client may do so. -/
def Allowed (c : Client) : Action → Prop
  | opens _ _ _ => True
  | edits uri es => ∃ text, c uri = some text ∧ AllFit text es
  | closes _ => True
  | strays uri _ => c uri = none
  | sends m => m.document? = none

/-- The client's texts afterwards. -/
def after (c : Client) : Action → Client
  | opens uri _ text => c.set uri (some text.toList)
  | edits uri es => c.set uri ((c uri).map fun text => es.foldl Edit.apply text)
  | closes uri => c.set uri none
  | strays _ _ => c
  | sends _ => c

/-- The message that the server gets. -/
def message (c : Client) : Action → Message
  | opens uri languageId text => .didOpen uri languageId text
  | edits uri es => .didChange uri (changesFor ((c uri).getD []) es)
  | closes uri => .didClose uri
  | strays uri changes => .didChange uri changes
  | sends m => m

end Action

/-- What a client and a server come to by an exchange of messages, whatever the tree of files is
at each. -/
inductive Reached : Client → Session → Prop
  | start : Reached (fun _ => none) {}
  | step {c : Client} {s : Session} {a : Action} (tree : FileTree) :
      Reached c s → a.Allowed c → Reached (a.after c) (s.handle tree (a.message c)).session

/-- Changes to a document that is not open change nothing at all. -/
theorem handle_didChange_of_closed {s : Session} {uri : String} (h : s.document? uri = none)
    (tree : FileTree) (changes : List DocumentChange) :
    (s.handle tree (.didChange uri changes)).session = s := by
  rw [Session.handle, Session.documentChanged, h]

/-- The server's texts are the client's. -/
def Agree (c : Client) (s : Session) : Prop := ∀ uri, (s.document? uri).map (·.text) = c uri

theorem agree_handle {c : Client} {s : Session} (h : Agree c s) {a : Action} (ha : a.Allowed c)
    (tree : FileTree) : Agree (a.after c) (s.handle tree (a.message c)).session := by
  intro u
  -- a document that the action is not about keeps its text on both sides
  have hother : ∀ {uri : String} {text : Option (List Char)}, (a.message c).document? = some uri →
      u ≠ uri → ((s.handle tree (a.message c)).session.document? u).map (·.text) = c.set uri text u := by
    intro uri text hm hu
    rw [Session.document?_handle tree s _ (by rw [hm]; simpa using Ne.symm hu), h u, Client.set,
      if_neg hu]
  cases a with
  | opens uri languageId text =>
    by_cases hu : u = uri
    · subst hu
      rw [Action.after, Client.set, if_pos rfl]
      exact congrArg (Option.map (·.text)) ((Session.document?_opened s u _ u).trans (if_pos rfl))
    · exact hother rfl hu
  | edits uri es =>
    by_cases hu : u = uri
    · subst hu
      obtain ⟨text, ht, hfit⟩ := ha
      have hd := h u
      rw [ht, Option.map_eq_some_iff] at hd
      obtain ⟨d, hd, rfl⟩ := hd
      rw [Action.after, Client.set, if_pos rfl, ht, Option.map_some, ← text_foldl_changed hfit]
      refine (congrArg (Option.map (·.text))
        ((Session.document?_documentChanged s u _ u).trans (if_pos rfl))).trans ?_
      rw [hd, ht]
      rfl
    · exact hother rfl hu
  | closes uri =>
    by_cases hu : u = uri
    · subst hu
      rw [Action.after, Client.set, if_pos rfl]
      exact congrArg (Option.map (·.text)) ((Session.document?_closed s u u).trans (if_pos rfl))
    · exact hother rfl hu
  | strays uri changes =>
    have hnone : s.document? uri = none := by
      have := h uri
      rwa [show c uri = none from ha, Option.map_eq_none_iff] at this
    rw [Action.message, handle_didChange_of_closed hnone]
    exact h u
  | sends m =>
    rw [Action.message, Session.document?_handle tree s m (by rw [show m.document? = none from ha]; simp)]
    exact h u

theorem Reached.agree {c : Client} {s : Session} (h : Reached c s) : Agree c s := by
  induction h with
  | start => exact fun _ => rfl
  | step tree _ ha ih => exact agree_handle ih ha tree

/-- **The texts of client and server agree** after any exchange, and so do the lines before any
cursor.  What is told of one document leaves the others alone, and changes to a document that is not
open are lost. -/
theorem documents_agree {c : Client} {s : Session} (h : Reached c s) :
    (∀ uri, (s.document? uri).map (·.text) = c uri) ∧
      (∀ tree m uri, m.document? ≠ some uri →
        (s.handle tree m).session.document? uri = s.document? uri) ∧
      (∀ tree uri changes, c uri = none →
        (s.handle tree (.didChange uri changes)).session = s) ∧
      ∀ uri text i, c uri = some text → Cut text i →
        (s.document? uri).bind (·.linePrefixAt? (positionAt text i)) =
          some (String.ofList (lastLine (text.take i))) := by
  have hagree := h.agree
  refine ⟨hagree, fun tree m uri hm => Session.document?_handle tree s m hm, ?_, ?_⟩
  · intro tree uri changes hc
    have := hagree uri
    rw [hc, Option.map_eq_none_iff] at this
    exact handle_didChange_of_closed this tree changes
  · intro uri text i hc hi
    have := hagree uri
    rw [hc, Option.map_eq_some_iff] at this
    obtain ⟨d, hd, rfl⟩ := this
    rw [hd, Option.bind_some, Document.linePrefixAt?, Document.linePrefix?_positionAt hi]
    rfl

/-- An edit that joins two lines, after a character of two code units. -/
def joining : List Action :=
  [.opens "file:///a" "php" "x😀y\r\nz", .edits "file:///a" [.splice 2 5 "\r", .splice 3 3 "\n"]]

theorem documents_agree_joining :
    let c := joining.foldl Action.after (fun _ => none)
    ∃ s, Reached c s ∧ c "file:///a" = some "x😀\r\nz".toList ∧
      ∀ uri, (s.document? uri).map (·.text) = c uri := by
  have h₁ : Reached _ _ := .step (a := .opens "file:///a" "php" "x😀y\r\nz") .empty .start trivial
  have h₂ : Reached _ _ := .step (a := .edits "file:///a" [.splice 2 5 "\r", .splice 3 3 "\n"]) .empty h₁
    ⟨_, rfl, by decide +kernel⟩
  exact ⟨_, h₂, by decide +kernel, (documents_agree h₂).1⟩

end SiteAssist.Server
