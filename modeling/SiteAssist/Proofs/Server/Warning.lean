import Mathlib.Data.List.Nodup
import Mathlib.Data.List.ProdSigma
import SiteAssist.Proofs.Server.Configuring
import SiteAssist.Proofs.Server.Watching
import SiteAssist.Proofs.Text.Search

/-!
# Warnings of missing tools

A tool is missing in a site if it is enabled and no regular file stands where it would be run from
(`Missing`).  The tools are checked in the sites that come, and in all sites when settings are taken
(`checkedSites`).  What comes of checking some tools in some sites is said once (`Checked`) and put
together from the single checks up to a message (`checked_handle`), and from the messages to a session.

* `missing_tools_warned`: in every session each tool is **warned of at most once, never wrongly, and
  always when a check finds it missing**.
-/

namespace SiteAssist

/-- How the warning of a tool begins. -/
def Tool.alarm (tool : Tool) : String := "Drupal: " ++ tool.name ++ " executable not found at "

theorem Tool.eq_of_alarm_prefix {tool other : Tool} (h : tool.alarm.toList <+: other.alarm.toList) :
    tool = other := by
  revert h
  cases tool <;> cases other <;> decide +kernel

namespace Server

/-! ## What the user is shown -/

namespace Notice

/-- The text that a message shows to the user. -/
def shown? (n : Notice) : Option String :=
  if n.method = "window/showMessage" then (n.params.get? "message").bind Json.asString? else none

/-- The tool whose warning is shown. -/
def warned? (n : Notice) : Option Tool :=
  n.shown?.bind fun text => Tool.all.find? fun tool =>
    (Text.stripPrefix? tool.alarm.toList text.toList).isSome

theorem shown?_showWarning (text : String) : (showWarning text).shown? = some text := rfl

theorem warned?_of_not_shown {n : Notice} (h : n.shown? = none) : n.warned? = none := by
  rw [warned?, h, Option.bind_none]

/-- A text begins with the alarm of one tool at most. -/
theorem warned?_alarm (tool : Tool) (rest : String) :
    (showWarning (tool.alarm ++ rest)).warned? = some tool := by
  rw [warned?, shown?_showWarning, Option.bind_some]
  have hown : tool.alarm.toList <+: (tool.alarm ++ rest).toList := by
    rw [String.toList_append]
    exact List.prefix_append _ _
  cases hfind : Tool.all.find? fun t =>
      (Text.stripPrefix? t.alarm.toList (tool.alarm ++ rest).toList).isSome with
  | none =>
    have := List.find?_eq_none.mp hfind tool (Settings.mem_all tool)
    exact absurd (Text.isSome_stripPrefix?_iff.mpr hown) this
  | some other =>
    have hother : other.alarm.toList <+: (tool.alarm ++ rest).toList := by
      have := List.find?_some hfind
      exact Text.isSome_stripPrefix?_iff.mp this
    -- of two alarms that both begin the text, one begins the other
    rcases List.prefix_or_prefix_of_prefix hown hother with h | h
    · rw [Tool.eq_of_alarm_prefix h]
    · rw [Tool.eq_of_alarm_prefix h]

end Notice

/-- Messages that show nothing to the user. -/
def Quiet (sent : List Notice) : Prop := ∀ n ∈ sent, n.shown? = none

theorem quiet_nil : Quiet [] := fun _ h => absurd h List.not_mem_nil

theorem quiet_singleton {n : Notice} (h : n.shown? = none) : Quiet [n] := by
  intro m hm
  rwa [List.mem_singleton.mp hm]

theorem Quiet.append {sent more : List Notice} (h : Quiet sent) (h' : Quiet more) : Quiet (sent ++ more) :=
  List.forall_mem_append.mpr ⟨h, h'⟩

/-! ## Missing tools -/

/-- A tool is enabled, and no regular file stands where it would be run from in a site. -/
def Missing (tree : FileTree) (set : Settings) (x : Site) (tool : Tool) : Prop :=
  (set.tool tool).enabled = true ∧ tree.isFile ((set.tool tool).pathIn x.root tool) = false

instance (tree : FileTree) (set : Settings) (x : Site) (tool : Tool) : Decidable (Missing tree set x tool) :=
  inferInstanceAs (Decidable (_ ∧ _))

/-- The text that warns of a tool in a site. -/
def warning (set : Settings) (x : Site) (tool : Tool) : String :=
  "Drupal: " ++ tool.missingMessage ((set.tool tool).pathIn x.root tool)

theorem warned?_warning (set : Settings) (x : Site) (tool : Tool) :
    (Notice.showWarning (warning set x tool)).warned? = some tool := by
  have htext : warning set x tool = tool.alarm ++ ((set.tool tool).pathIn x.root tool).text := by
    simp only [warning, Tool.missingMessage, Tool.alarm, String.append_assoc]
  rw [htext]
  exact Notice.warned?_alarm tool _

/-- What comes of checking some tools in some sites, by the tools warned of before and after. -/
structure Checked (tree : FileTree) (set : Settings) (pairs : List (Site × Tool)) (before after : List Tool)
    (sent : List Notice) : Prop where
  recorded : after = (sent.filterMap Notice.warned?).reverse ++ before
  once : before.Nodup → after.Nodup
  justified : ∀ n ∈ sent, ∀ text, n.shown? = some text →
    ∃ x tool, (x, tool) ∈ pairs ∧ Missing tree set x tool ∧ n = .showWarning (warning set x tool)
  complete : ∀ x tool, (x, tool) ∈ pairs → Missing tree set x tool → tool ∈ after

namespace Checked

variable {tree : FileTree} {set : Settings} {pairs more : List (Site × Tool)} {u v w : List Tool}
  {sent told : List Notice}

theorem of_quiet (h : Quiet sent) : Checked tree set [] w w sent where
  recorded := by
    rw [List.filterMap_eq_nil_iff.mpr fun n hn => Notice.warned?_of_not_shown (h n hn)]
    rfl
  once := id
  justified n hn text htext := by
    rw [h n hn] at htext
    cases htext
  complete _ _ h _ := absurd h List.not_mem_nil

/-- A check that has nothing to tell: the tool is not missing, or has been warned of. -/
theorem of_idle {x : Site} {tool : Tool} (h : ¬Missing tree set x tool ∨ tool ∈ w) :
    Checked tree set [(x, tool)] w w [] where
  recorded := rfl
  once := id
  justified _ hn := absurd hn List.not_mem_nil
  complete y other hmem hmiss := by
    obtain ⟨rfl, rfl⟩ := Prod.mk.inj (List.mem_singleton.mp hmem)
    exact h.resolve_left fun hnot => hnot hmiss

/-- A check that warns of the tool, for the first time. -/
theorem of_warning {x : Site} {tool : Tool} (hmiss : Missing tree set x tool) (hnew : tool ∉ w) :
    Checked tree set [(x, tool)] w (tool :: w) [.showWarning (warning set x tool)] where
  recorded := by
    rw [List.filterMap_cons, warned?_warning]
    rfl
  once h := List.nodup_cons.mpr ⟨hnew, h⟩
  justified n hn _ _ := ⟨x, tool, List.mem_singleton_self _, hmiss, List.mem_singleton.mp hn⟩
  complete y other hmem _ := by
    obtain ⟨rfl, rfl⟩ := Prod.mk.inj (List.mem_singleton.mp hmem)
    exact List.mem_cons_self

theorem append (h : Checked tree set pairs u v sent) (h' : Checked tree set more v w told) :
    Checked tree set (pairs ++ more) u w (sent ++ told) where
  recorded := by
    rw [h'.recorded, h.recorded, List.filterMap_append, List.reverse_append, List.append_assoc]
  once hu := h'.once (h.once hu)
  justified n hn text htext := by
    rcases List.mem_append.mp hn with hn | hn
    · obtain ⟨x, tool, hmem, hrest⟩ := h.justified n hn text htext
      exact ⟨x, tool, List.mem_append_left _ hmem, hrest⟩
    · obtain ⟨x, tool, hmem, hrest⟩ := h'.justified n hn text htext
      exact ⟨x, tool, List.mem_append_right _ hmem, hrest⟩
  complete x tool hmem hmiss := by
    rcases List.mem_append.mp hmem with hmem | hmem
    · rw [h'.recorded]
      exact List.mem_append_right _ (h.complete x tool hmem hmiss)
    · exact h'.complete x tool hmem hmiss

theorem quiet_append (h' : Checked tree set pairs v w told) (h : Quiet sent) :
    Checked tree set pairs v w (sent ++ told) := (of_quiet h).append h'

end Checked

namespace Session

variable {s : Session} {tree : FileTree}

theorem quiet_traceLine (s : Session) (text : String) : Quiet (s.traceLine text) := by
  rw [traceLine]
  split
  · exact quiet_singleton rfl
  · exact quiet_nil

theorem quiet_registration (s : Session) (x : Site) : Quiet (s.registration x) := by
  rw [registration]
  split
  · exact quiet_singleton rfl
  · exact quiet_nil

theorem quiet_unregistrations (s : Session) (sites : List Site) :
    Quiet (sites.flatMap s.unregistration) := by
  intro n hn
  obtain ⟨x, _, hx⟩ := List.mem_flatMap.mp hn
  rw [unregistration] at hx
  split at hx
  · rw [List.mem_singleton.mp hx]
    rfl
  · exact absurd hx List.not_mem_nil

/-! ## Checks -/

/-- A step that does no more than check some tools in some sites. -/
def Checks {α : Type} (tree : FileTree) (step : Session → α → Sent Session)
    (pairs : α → List (Site × Tool)) : Prop :=
  ∀ s a, ∃ w, (step s a).1 = { s with warned := w } ∧
    Checked tree s.settings (pairs a) s.warned w (step s a).2

theorem Checks.forEach {α : Type} {step : Session → α → Sent Session} {pairs : α → List (Site × Tool)}
    (h : Checks tree step pairs) : Checks tree (forEach step) fun as => as.flatMap pairs := by
  intro s as
  induction as generalizing s with
  | nil => exact ⟨s.warned, rfl, .of_quiet quiet_nil⟩
  | cons a as ih =>
    obtain ⟨v, hs, hv⟩ := h s a
    obtain ⟨w, hs', hw⟩ := ih (step s a).1
    rw [forEach_cons]
    rw [hs] at hs' hw ⊢
    exact ⟨w, hs', hv.append hw⟩

/-- The one check from which all others are put together. -/
theorem checks_checkTool (tree : FileTree) (x : Site) :
    Checks tree (checkTool tree x) fun tool => [(x, tool)] := by
  intro s tool
  rw [checkTool]
  simp only [ToolSettings.executable]
  by_cases henabled : (s.settings.tool tool).enabled = true
  · rw [if_neg (not_not_intro henabled)]
    cases hfile : tree.isFile ((s.settings.tool tool).pathIn x.root tool) with
    | true => exact ⟨s.warned, rfl, .of_idle (Or.inl fun h => by simp [h.2] at hfile)⟩
    | false =>
      have hmiss : Missing tree s.settings x tool := ⟨henabled, hfile⟩
      by_cases hknown : tool ∈ s.warned
      · simp only [Bool.false_eq_true, if_false, List.contains_iff_mem, if_pos hknown]
        exact ⟨s.warned, rfl, .of_idle (Or.inr hknown)⟩
      · simp only [Bool.false_eq_true, if_false, List.contains_iff_mem, if_neg hknown]
        exact ⟨tool :: s.warned, rfl, .of_warning hmiss hknown⟩
  · rw [if_pos henabled]
    exact ⟨s.warned, rfl, .of_idle (Or.inl fun h => henabled h.1)⟩

theorem checks_checkTools (tree : FileTree) :
    Checks tree (checkTools tree) fun x => Tool.all.flatMap fun tool => [(x, tool)] :=
  fun s x => (checks_checkTool tree x).forEach s Tool.all

theorem checks_announce (tree : FileTree) :
    Checks tree (announce tree) fun x => Tool.all.flatMap fun tool => [(x, tool)] := by
  intro s x
  obtain ⟨w, hs, hw⟩ := checks_checkTools tree s x
  exact ⟨w, hs, hw.quiet_append ((quiet_traceLine s _).append (quiet_registration s x))⟩

/-- The tools in some sites, each tool in each site. -/
theorem flatMap_all (sites : List Site) :
    (sites.flatMap fun x => Tool.all.flatMap fun tool => [(x, tool)]) = sites ×ˢ Tool.all := by
  show _ = sites.flatMap fun x => Tool.all.map (Prod.mk x)
  simp only [List.map_eq_flatMap]

/-- All tools are checked in each of some sites, one after the other. -/
theorem checks_forEach {step : Session → Site → Sent Session}
    (h : Checks tree step fun x => Tool.all.flatMap fun tool => [(x, tool)]) :
    Checks tree (forEach step) fun sites => sites ×ˢ Tool.all := by
  intro s sites
  simp only [← flatMap_all]
  exact h.forEach s sites

theorem checks_addSites (tree : FileTree) (s : Session) (folders : List Path) :
    Checked tree (addSites tree s folders).1.settings (found tree s folders ×ˢ Tool.all) s.warned
      (addSites tree s folders).1.warned (addSites tree s folders).2 := by
  obtain ⟨w, hs, hw⟩ := checks_forEach (checks_announce tree)
    { s with nextId := s.nextId + (found tree s folders).length } (found tree s folders)
  simp only [addSites_eq, hs]
  exact hw

/-! ## Messages -/

/-- The sites whose tools are checked when a message is worked on. -/
def checkedSites (tree : FileTree) (s : Session) : Message → List Site
  | .initialized => found tree s s.folders
  | .didChangeWorkspaceFolders removed added =>
    found tree (s.turned (pathsOf removed) (pathsOf added)) (pathsOf added)
  | .didChangeConfiguration payload => if (Settings.ofJson payload).toOption.isSome then s.sites else []
  | _ => []

/-- A session that differs in its sites alone, and not in their numbers. -/
def Renews (s t : Session) : Prop :=
  ∃ sites, t = { s with sites } ∧ sites.map Site.id = s.sites.map Site.id

theorem Renews.refl (s : Session) : s.Renews s := ⟨s.sites, rfl, rfl⟩

theorem renews_withSite (s : Session) (x : Site) : s.Renews (s.withSite x) := by
  refine ⟨_, rfl, ?_⟩
  rw [List.map_map]
  refine List.map_congr_left fun y _ => ?_
  by_cases hid : y.id = x.id <;> simp [Site.same, hid]

theorem renews_resolved (tree : FileTree) (s : Session) (item : Json) :
    s.Renews (s.resolved tree item).2 := by
  rw [resolved_eq]
  split
  · exact .refl s
  · split
    · exact .refl s
    · exact renews_withSite s _

theorem renews_executed {command : String} {arguments : List Json} {reply : Reply} {t : Session}
    (h : s.executed tree command arguments = .ok (reply, t)) : s.Renews t := by
  unfold executed at h
  split at h
  · simp at h
  · split at h
    · split at h
      · cases h
        exact renews_withSite s _
      · cases h
        exact .refl s
    · simp at h

theorem renews_filesChanged (tree : FileTree) (s : Session) (events : List (Path × FileEvent)) :
    s.Renews (filesChanged tree s events).1 := by
  rw [filesChanged, foldl_tell]
  split
  · exact .refl s
  · refine ⟨_, rfl, ?_⟩
    rw [List.map_map]
    exact List.map_congr_left fun x _ => (kept_eventsTold tree events x).id

/-- What comes of a message that checks nothing. -/
theorem Renews.checked {t : Session} (h : s.Renews t) {sent : List Notice} (hq : Quiet sent) :
    Checked tree t.settings [] s.warned t.warned sent := by
  obtain ⟨sites, rfl, _⟩ := h
  exact .of_quiet hq

theorem quiet_filesChanged (tree : FileTree) (s : Session) (events : List (Path × FileEvent)) :
    Quiet (filesChanged tree s events).2 := by
  rw [filesChanged]
  split
  · exact quiet_nil
  · exact quiet_traceLine s _

theorem quiet_completions (tree : FileTree) (s : Session) (uri : String) (position : Position) :
    Quiet (s.completions tree uri position).2 := by
  rw [completions]
  split
  · exact quiet_nil
  · split
    · exact quiet_nil
    · exact quiet_traceLine s _

/-- **What a message makes of the warnings** is what its checks make of them. -/
theorem checked_handle (tree : FileTree) (s : Session) (m : Message) :
    Checked tree (s.handle tree m).session.settings (s.checkedSites tree m ×ˢ Tool.all) s.warned
      (s.handle tree m).session.warned (s.handle tree m).sent := by
  cases m with
  | start | shutdown | exit | didClose => exact .of_quiet quiet_nil
  | initialized => exact (checks_addSites tree s s.folders).quiet_append (quiet_singleton rfl)
  | didOpen uri languageId text => exact .of_quiet (quiet_traceLine s _)
  | didChange uri changes =>
    show Checked tree (s.documentChanged uri changes).settings [] s.warned
      (s.documentChanged uri changes).warned []
    rw [documentChanged]
    split <;> exact .of_quiet quiet_nil
  | didChangeWatchedFiles changes =>
    exact (renews_filesChanged tree s (eventsOf changes)).checked (quiet_filesChanged tree s _)
  | didChangeWorkspaceFolders removed added =>
    exact (checks_addSites tree (s.turned (pathsOf removed) (pathsOf added)) (pathsOf added)).quiet_append
      (quiet_unregistrations s _)
  | didChangeConfiguration payload =>
    show Checked tree (s.configured tree payload).1.settings
      ((if (Settings.ofJson payload).toOption.isSome then s.sites else []) ×ˢ Tool.all) s.warned
      (s.configured tree payload).1.warned (s.configured tree payload).2
    rw [configured]
    cases Settings.ofJson payload with
    | error e => exact .of_quiet quiet_nil
    | ok set =>
      obtain ⟨w, hs, hw⟩ := checks_forEach (checks_checkTools tree) { s with settings := set } s.sites
      simp only [hs]
      exact hw
  | executeCommand command arguments =>
    simp only [handle]
    split
    · rename_i he
      exact (renews_executed he).checked quiet_nil
    · exact .of_quiet quiet_nil
  | completion uri position => exact .of_quiet (quiet_completions tree s uri position)
  | resolve item => exact (renews_resolved tree s item).checked quiet_nil

theorem sites_addSites (tree : FileTree) (s : Session) (folders : List Path) :
    (addSites tree s folders).1.sites = s.sites ++ found tree s folders := by
  obtain ⟨w, hs, _⟩ := addSites_spec tree s folders
  rw [hs]

theorem sites_configured (tree : FileTree) (s : Session) (payload : Json) :
    (s.configured tree payload).1.sites = s.sites := by
  rw [configured]
  split
  · rfl
  · rename_i set _
    obtain ⟨w, hs, _⟩ := (warns_checkTools tree).forEach { s with settings := set } s.sites
    rw [hs]

/-- The sites that are checked are live afterwards. -/
theorem checkedSites_subset (tree : FileTree) (s : Session) (m : Message) :
    s.checkedSites tree m ⊆ (s.handle tree m).session.sites := by
  cases m with
  | initialized =>
    show found tree s s.folders ⊆ (addSites tree s s.folders).1.sites
    rw [sites_addSites]
    exact List.subset_append_right _ _
  | didChangeWorkspaceFolders removed added =>
    show _ ⊆ (addSites tree (s.turned (pathsOf removed) (pathsOf added)) (pathsOf added)).1.sites
    rw [sites_addSites]
    exact List.subset_append_right _ _
  | didChangeConfiguration payload =>
    show (if _ then s.sites else []) ⊆ (s.configured tree payload).1.sites
    rw [sites_configured]
    split
    · exact List.Subset.refl _
    · exact List.nil_subset _
  | _ => exact List.nil_subset _

theorem Renews.id_mem {t : Session} (h : s.Renews t) {x : Site} (hx : x ∈ t.sites) :
    x.id ∈ s.sites.map Site.id := by
  obtain ⟨sites, rfl, hids⟩ := h
  rw [← hids]
  exact List.mem_map_of_mem hx

/-- A site that is live after a message was live before or is checked. -/
theorem live_or_checked (tree : FileTree) (s : Session) (m : Message) {x : Site}
    (hx : x ∈ (s.handle tree m).session.sites) :
    x.id ∈ s.sites.map Site.id ∨ x ∈ s.checkedSites tree m := by
  cases m with
  | start | exit | didOpen | didClose | completion => exact Or.inl (List.mem_map_of_mem hx)
  | shutdown => exact absurd hx List.not_mem_nil
  | initialized =>
    have hx : x ∈ (addSites tree s s.folders).1.sites := hx
    rw [sites_addSites] at hx
    exact (List.mem_append.mp hx).imp_left List.mem_map_of_mem
  | didChange uri changes =>
    have hsites : (s.documentChanged uri changes).sites = s.sites := by
      rw [documentChanged]
      split <;> rfl
    have hx : x ∈ (s.documentChanged uri changes).sites := hx
    exact Or.inl (List.mem_map_of_mem (hsites ▸ hx))
  | didChangeWatchedFiles changes => exact Or.inl ((renews_filesChanged tree s (eventsOf changes)).id_mem hx)
  | didChangeWorkspaceFolders removed added =>
    have hx : x ∈ (addSites tree (s.turned (pathsOf removed) (pathsOf added)) (pathsOf added)).1.sites := hx
    rw [sites_addSites] at hx
    exact (List.mem_append.mp hx).imp_left fun h => List.mem_map_of_mem (List.mem_of_mem_filter h)
  | didChangeConfiguration payload =>
    have hx : x ∈ (s.configured tree payload).1.sites := hx
    rw [sites_configured] at hx
    exact Or.inl (List.mem_map_of_mem hx)
  | executeCommand command arguments =>
    simp only [handle] at hx
    split at hx
    · rename_i he
      exact Or.inl ((renews_executed he).id_mem hx)
    · exact Or.inl (List.mem_map_of_mem hx)
  | resolve item => exact Or.inl ((renews_resolved tree s item).id_mem hx)

/-! ## Sessions -/

/-- The sites whose tools are checked at a call. -/
def checkedAt (s : Session) (c : Call) : List Site :=
  match s.message? c with
  | some m => s.checkedSites c.tree m
  | none => []

/-- Entering changes nothing but the phase. -/
theorem exists_entered_eq (s : Session) (method : String) : ∃ phase, s.entered method = { s with phase } := by
  rw [entered]
  split
  · exact ⟨_, rfl⟩
  · split <;> exact ⟨_, rfl⟩

theorem checkedSites_phase (tree : FileTree) (s : Session) (phase : Phase) (m : Message) :
    { s with phase }.checkedSites tree m = s.checkedSites tree m := by
  cases m <;> rfl

theorem checked_outcome (s : Session) (c : Call) :
    Checked c.tree (s.outcome c).session.settings (s.checkedAt c ×ˢ Tool.all) s.warned
      (s.outcome c).session.warned (s.outcome c).sent := by
  -- a message is handled in the phase that it has entered, which no check looks at
  obtain ⟨phase, he⟩ := exists_entered_eq s c.method
  rw [checkedAt]
  cases hm : s.message? c with
  | none =>
    obtain ⟨hsent, _, hs | hs⟩ := outcome_of_none hm
    · rw [hsent, hs]
      exact .of_quiet quiet_nil
    · rw [hsent, hs, he]
      exact .of_quiet quiet_nil
  | some m =>
    obtain ⟨hs, hsent, _⟩ := outcome_of_message hm
    have := checked_handle c.tree { s with phase } m
    rw [hs, hsent, he]
    rwa [checkedSites_phase] at this

theorem checkedAt_subset (s : Session) (c : Call) : s.checkedAt c ⊆ (s.outcome c).session.sites := by
  rw [checkedAt]
  cases hm : s.message? c with
  | none => exact List.nil_subset _
  | some m =>
    obtain ⟨phase, he⟩ := exists_entered_eq s c.method
    have := checkedSites_subset c.tree { s with phase } m
    rw [(outcome_of_message hm).1, he]
    rwa [checkedSites_phase] at this

theorem live_or_checkedAt (s : Session) (c : Call) {x : Site} (hx : x ∈ (s.outcome c).session.sites) :
    x.id ∈ s.sites.map Site.id ∨ x ∈ s.checkedAt c := by
  obtain ⟨phase, he⟩ := exists_entered_eq s c.method
  rw [checkedAt]
  cases hm : s.message? c with
  | none =>
    obtain ⟨_, _, hs | hs⟩ := outcome_of_none hm
    · rw [hs] at hx
      exact Or.inl (List.mem_map_of_mem hx)
    · rw [hs, he] at hx
      exact Or.inl (List.mem_map_of_mem hx)
  | some m =>
    rw [(outcome_of_message hm).1, he] at hx
    have := live_or_checked c.tree { s with phase } m hx
    rwa [checkedSites_phase] at this

/-- Settings that can be read have all live sites checked. -/
theorem checkedAt_of_configured {c : Call} {payload : Json} {set : Settings}
    (hm : s.message? c = some (.didChangeConfiguration payload)) (hset : Settings.ofJson payload = .ok set) :
    s.checkedAt c = (s.outcome c).session.sites := by
  have hwork : (Message.didChangeConfiguration payload).IsWork := by simp [Message.IsWork, Message.method]
  have hsites : (s.handle c.tree (.didChangeConfiguration payload)).session.sites = s.sites :=
    sites_configured c.tree s payload
  rw [(outcome_of_isWork hm hwork).1, hsites, checkedAt, hm]
  simp [checkedSites, hset, Except.toOption]

/-- The tools that have been warned of are remembered, the last one first, and each is there once. -/
theorem warned_after (calls : List Call) :
    (after {} calls).warned = ((sentBy {} calls).filterMap Notice.warned?).reverse ∧
      (after {} calls).warned.Nodup := by
  induction calls using List.reverseRecOn with
  | nil => exact ⟨rfl, List.nodup_nil⟩
  | append_singleton calls c ih =>
    have h := checked_outcome (after {} calls) c
    rw [after_concat, sentBy_concat]
    refine ⟨?_, h.once ih.2⟩
    rw [h.recorded, ih.1, List.filterMap_append, List.reverse_append]

/-- **A missing tool is warned of once, and never wrongly.**

Whatever calls come in, the warnings that are shown are of different tools.  What a call shows is the
warning of a tool that the settings in force enable and that has no regular file at its path in a site,
live or just added.  And after a call that adds a site, or brings settings that can be read, every tool
that is missing in the sites checked, the one added or all, has been warned of. -/
theorem missing_tools_warned (calls : List Call) :
    ((sentBy {} calls).filterMap Notice.warned?).Nodup ∧
    ∀ c : Call,
      let s := after {} calls
      let t := (s.outcome c).session
      (∀ n ∈ (s.outcome c).sent, ∀ text, n.shown? = some text →
        ∃ x ∈ t.sites, ∃ tool, Missing c.tree t.settings x tool ∧ n.warned? = some tool ∧
          n = .showWarning (warning t.settings x tool)) ∧
      ∀ x ∈ t.sites,
        (x.id ∉ s.sites.map Site.id ∨
          ∃ payload set, s.message? c = some (.didChangeConfiguration payload) ∧
            Settings.ofJson payload = .ok set) →
        ∀ tool, Missing c.tree t.settings x tool →
          tool ∈ (sentBy {} (calls ++ [c])).filterMap Notice.warned? := by
  obtain ⟨hwarned, honce⟩ := warned_after calls
  refine ⟨List.nodup_reverse.mp (hwarned ▸ honce), fun c => ?_⟩
  have hchecked := checked_outcome (after {} calls) c
  constructor
  · intro n hn text htext
    obtain ⟨x, tool, hpair, hmiss, rfl⟩ := hchecked.justified n hn text htext
    have hx := checkedAt_subset _ c (List.mem_product.mp hpair).1
    exact ⟨x, hx, tool, hmiss, warned?_warning _ x tool, rfl⟩
  · intro x hx hchecks tool hmiss
    have hmem : x ∈ (after {} calls).checkedAt c := by
      rcases hchecks with hnew | ⟨payload, set, hm, hset⟩
      · exact (live_or_checkedAt _ c hx).resolve_left hnew
      · rw [checkedAt_of_configured hm hset]
        exact hx
    have hpair : (x, tool) ∈ (after {} calls).checkedAt c ×ˢ Tool.all :=
      List.mem_product.mpr ⟨hmem, Settings.mem_all tool⟩
    -- the tool is among those remembered, which are those that have been shown
    have hafter := hchecked.complete x tool hpair hmiss
    rwa [← after_concat, (warned_after (calls ++ [c])).1, List.mem_reverse] at hafter

/-- A tool that is enabled and has no path. -/
def enabledJson : Json := .object [("enabled", .bool true)]

/-- A session with one site, in which one tool is missing. -/
def missingOne : List Call :=
  [⟨oneSite, "initialize", some (watchingParams ["file:///site"])⟩,
   settingsChange oneSite (.object [("phpcs", enabledJson)]),
   ⟨oneSite, "initialized", some (.object [])⟩]

/-- Settings by which another tool is missing too. -/
def missingMore : Call := settingsChange oneSite (.object [("drush", enabledJson), ("phpcs", enabledJson)])

theorem missing_tools_warned_drush :
    ((sentBy {} missingOne).filterMap Notice.warned?) = [.phpcs] ∧
      (∃ payload set, (after {} missingOne).message? missingMore = some (.didChangeConfiguration payload) ∧
        Settings.ofJson payload = .ok set) ∧
      (∃ x ∈ ((after {} missingOne).outcome missingMore).session.sites,
        Missing oneSite ((after {} missingOne).outcome missingMore).session.settings x .drush) ∧
      Tool.drush ∈ (sentBy {} (missingOne ++ [missingMore])).filterMap Notice.warned? ∧
      ((sentBy {} (missingOne ++ [missingMore])).filterMap Notice.warned?).Nodup := by
  have hfirst : ((sentBy {} missingOne).filterMap Notice.warned?) = [.phpcs] := by decide +kernel
  have hphase : (after {} missingOne).phase = .running := by decide +kernel
  have hmessage : (after {} missingOne).message? missingMore =
      some (.didChangeConfiguration (.object [("drush", enabledJson), ("phpcs", enabledJson)])) := by
    rw [message?, hphase]
    rfl
  have hconfigured : ∃ payload set,
      (after {} missingOne).message? missingMore = some (.didChangeConfiguration payload) ∧
        Settings.ofJson payload = .ok set :=
    ⟨_, { phpcs := { enabled := true }, drush := { enabled := true } }, hmessage, rfl⟩
  have hmissing : ∃ x ∈ ((after {} missingOne).outcome missingMore).session.sites,
      Missing oneSite ((after {} missingOne).outcome missingMore).session.settings x .drush := by
    decide +kernel
  obtain ⟨x, hx, hmiss⟩ := hmissing
  exact ⟨hfirst, hconfigured, ⟨x, hx, hmiss⟩,
    ((missing_tools_warned missingOne).2 missingMore).2 x hx (Or.inr hconfigured) .drush hmiss,
    (missing_tools_warned (missingOne ++ [missingMore])).1⟩

end Session

end Server

end SiteAssist
