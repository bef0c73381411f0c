import SiteAssist.Proofs.Server.Watching
import SiteAssist.Proofs.Site.Routing

/-!
# File events in a session

The client reports changes to files in batches, each change by a URI and the number of its kind.  Every
live site **hears the whole batch, change after change** (`Hears`): those whose URI names no file or whose
kind is none of the protocol's are left out, and what other sites are live does not count.

What the client reports is what it has been asked to (`Asked`): the globs of the live sites, each a pattern of
a site joined to its root.

* `live_after`: whatever messages come in, each site of a session is one that **some calls have led to**,
  so that what is shown of all runs of a site holds of it.
* `asked_of_ne`: what a site reacts to **the client has been asked to report**, if the root of the site reads
  as itself.
* `events_routed` joins what one event makes of one site, the batch, and what is asked for.
* `bracketed_root_unasked`: a root with brackets does not read as itself, and **nothing below it is asked
  for**.
-/

namespace SiteAssist

/-- A site that some calls have led to, from where it was found. -/
def Site.Live (x : Site) : Prop := ∃ id root calls, x = (Site.new id root).run calls

theorem Site.Live.perform {x : Site} (h : x.Live) (c : Site.Call) : (x.perform c).Live := by
  obtain ⟨id, root, calls, rfl⟩ := h
  exact ⟨id, root, calls ++ [c], (run_concat _ calls c).symm⟩

end SiteAssist

namespace SiteAssist.Server.Session

/-! ## Live sites -/

/-- Each site of a session is live. -/
def AllLive (s : Session) : Prop := ∀ x ∈ s.sites, x.Live

variable {s : Session}

theorem live_of_mem_found {tree : FileTree} {folders : List Path} {x : Site}
    (hx : x ∈ found tree s folders) : x.Live := by
  obtain ⟨y, hy, rfl⟩ := List.mem_map.mp hx
  obtain ⟨_, hnew, _⟩ := Site.of_mem_locateAfter hy
  exact ⟨y.id, y.root, [⟨tree, .populate⟩], congrArg (Site.populate · tree) hnew⟩

theorem AllLive.addSites (h : s.AllLive) (tree : FileTree) (folders : List Path) :
    (addSites tree s folders).1.AllLive := by
  obtain ⟨w, hs, _⟩ := addSites_spec tree s folders
  intro x hx
  rw [hs] at hx
  rcases List.mem_append.mp hx with hx | hx
  · exact h x hx
  · exact live_of_mem_found hx

theorem AllLive.withSite (h : s.AllLive) {x : Site} (hx : x ∈ s.sites) (c : Site.Call) :
    (s.withSite (x.perform c)).AllLive := by
  intro y hy
  obtain ⟨z, hz, rfl⟩ := List.mem_map.mp hy
  split
  · exact (h x hx).perform c
  · exact h z hz

theorem live_eventsTold (tree : FileTree) (events : List (Path × FileEvent)) {x : Site} (h : x.Live) :
    (eventsTold tree events x).Live := by
  induction events generalizing x with
  | nil => exact h
  | cons e es ih => exact ih (h.perform ⟨tree, .event e.1 e.2⟩)

theorem AllLive.resolved (h : s.AllLive) (tree : FileTree) (item : Json) :
    (s.resolved tree item).2.AllLive := by
  rw [resolved_eq]
  split
  · exact h
  · split
    · exact h
    · rename_i pending _ _ site hsite
      exact h.withSite (List.mem_of_find?_eq_some hsite) ⟨tree, .resolve pending⟩

theorem AllLive.executed (h : s.AllLive) {tree : FileTree} {command : String} {arguments : List Json}
    {reply : Reply} {t : Session} (he : s.executed tree command arguments = .ok (reply, t)) :
    t.AllLive := by
  unfold Session.executed at he
  split at he
  · simp at he
  · split at he
    · split at he
      · rename_i symbol _ _ site hsite
        cases he
        obtain ⟨p, _, hp⟩ := Option.bind_eq_some_iff.mp hsite
        exact h.withSite (List.mem_of_mem_filter (List.mem_of_head? hp)) ⟨tree, .search symbol⟩
      · cases he
        exact h
    · simp at he

theorem filesChanged_eq (tree : FileTree) (s : Session) (events : List (Path × FileEvent)) :
    (filesChanged tree s events).1 = { s with sites := s.sites.map (eventsTold tree events) } := by
  rw [filesChanged, foldl_tell]
  cases events with
  | nil =>
    rw [if_pos List.isEmpty_nil]
    exact congrArg (fun sites => { s with sites }) (List.map_id' s.sites).symm
  | cons e es => rw [if_neg (by simp)]

theorem AllLive.handle (h : s.AllLive) (tree : FileTree) (m : Message) :
    (s.handle tree m).session.AllLive := by
  cases m with
  | start | exit | didOpen | didClose | completion => exact h
  | shutdown => exact fun x hx => absurd hx List.not_mem_nil
  | initialized => exact h.addSites tree s.folders
  | didChange uri changes =>
    show (s.documentChanged uri changes).AllLive
    rw [documentChanged]
    split <;> exact h
  | didChangeWatchedFiles changes =>
    show (s.filesChanged tree (eventsOf changes)).1.AllLive
    rw [filesChanged_eq]
    intro x hx
    obtain ⟨y, hy, rfl⟩ := List.mem_map.mp hx
    exact live_eventsTold tree (eventsOf changes) (h y hy)
  | didChangeWorkspaceFolders removed added =>
    show (foldersChanged tree s (pathsOf removed) (pathsOf added)).1.AllLive
    rw [foldersChanged_eq]
    exact AllLive.addSites (fun x hx => h x (List.mem_of_mem_filter hx)) tree _
  | didChangeConfiguration payload =>
    show (s.configured tree payload).1.AllLive
    rw [configured]
    split
    · exact h
    · rename_i settings _
      obtain ⟨w, hs, _⟩ := (warns_checkTools tree).forEach { s with settings } s.sites
      rw [hs]
      exact h
  | executeCommand command arguments =>
    simp only [Session.handle]
    split
    · rename_i he
      exact h.executed he
    · exact h
  | resolve item => exact h.resolved tree item

theorem AllLive.outcome (h : s.AllLive) (c : Call) : (s.outcome c).session.AllLive := by
  have hentered : (s.entered c.method).AllLive := by
    rw [entered]
    split
    · exact h
    · split <;> exact h
  cases hm : s.message? c with
  | some m =>
    rw [(outcome_of_message hm).1]
    exact hentered.handle c.tree m
  | none =>
    rcases (outcome_of_none hm).2.2 with hs | hs <;> rw [hs]
    · exact h
    · exact hentered

/-- **Each site of a session is live**, whatever messages have come in. -/
theorem live_after (calls : List Call) : (after {} calls).AllLive := by
  induction calls using List.reverseRecOn with
  | nil => exact fun x hx => absurd hx List.not_mem_nil
  | append_singleton calls c ih =>
    rw [after_concat]
    exact ih.outcome c

/-! ## Batches of events -/

/-- The kinds of change, each under its number in the protocol. -/
def kinds : List (Nat × FileEvent) := [(1, .created), (2, .changed), (3, .deleted)]

theorem eventOf?_eq_some_iff {kind : Nat} {event : FileEvent} :
    eventOf? kind = some event ↔ (kind, event) ∈ kinds := by
  rw [eventOf?.eq_def]
  split <;> cases event <;> simp [kinds] <;> assumption

/-- What becomes of a site that is told of a batch of changes, one after the other. -/
inductive Hears (tree : FileTree) : List (String × Nat) → Site → Site → Prop
  | done {x : Site} : Hears tree [] x x
  | event {uri : String} {kind : Nat} {rest : List (String × Nat)} {x y : Site} {p : Path}
      {event : FileEvent} (named : Uri.toPath? uri = some p) (known : (kind, event) ∈ kinds)
      (hears : Hears tree rest (x.onEvent tree p event) y) : Hears tree ((uri, kind) :: rest) x y
  | strange {uri : String} {kind : Nat} {rest : List (String × Nat)} {x y : Site}
      (unknown : Uri.toPath? uri = none ∨ ∀ event, (kind, event) ∉ kinds)
      (hears : Hears tree rest x y) : Hears tree ((uri, kind) :: rest) x y

theorem eventsOf_cons (uri : String) (kind : Nat) (rest : List (String × Nat)) :
    eventsOf ((uri, kind) :: rest) =
      ((Uri.toPath? uri).bind fun p => (eventOf? kind).map (p, ·)).toList ++ eventsOf rest := by
  rw [eventsOf, List.filterMap_cons]
  dsimp only
  cases (Uri.toPath? uri).bind fun p => (eventOf? kind).map (p, ·) <;> rfl

/-- A site that is told of the events of a batch has heard the batch. -/
theorem hears_eventsTold (tree : FileTree) (changes : List (String × Nat)) (x : Site) :
    Hears tree changes x (eventsTold tree (eventsOf changes) x) := by
  induction changes generalizing x with
  | nil => exact .done
  | cons change rest ih =>
    obtain ⟨uri, kind⟩ := change
    cases hp : Uri.toPath? uri with
    | none =>
      rw [eventsOf_cons, hp]
      exact .strange (Or.inl hp) (ih x)
    | some p =>
      cases he : eventOf? kind with
      | none =>
        rw [eventsOf_cons, hp, he]
        refine .strange (Or.inr fun event h => ?_) (ih x)
        rw [eventOf?_eq_some_iff.mpr h] at he
        cases he
      | some event =>
        rw [eventsOf_cons, hp, he]
        exact .event hp (eventOf?_eq_some_iff.mp he) (ih (x.onEvent tree p event))

/-! ## What is asked for -/

/-- The client has been asked to report changes to a path and not been told to stop. -/
def Asked (sent : List Notice) (p : Path) : Prop :=
  ∃ r ∈ sent.flatMap Notice.watching, r.1 ∉ sent.flatMap Notice.unregistered ∧
    ∃ glob ∈ r.2, Glob.StandsFor glob.toList p.text.toList

/-- The patterns are the same for all live sites. -/
theorem watchPatterns_of_live {x : Site} (h : x.Live) : x.watchPatterns = Site.sources := by
  obtain ⟨id, root, calls, rfl⟩ := h
  exact Site.watchPatterns_run id root calls

theorem head?_ne_of_mem_sources : ∀ source ∈ Site.sources, source.toList.head? ≠ some '/' := by
  decide +kernel

/-- Of the files of a live site those that matter are asked for, if its root reads as itself. -/
theorem asked_of_watched {sent : List Notice} (h : s.InStep sent) {x : Site} (hx : x ∈ s.sites)
    (hlive : x.Live) (hroot : x.root.isAbsolute = true) (hself : Glob.SelfReading x.root.text.toList)
    {p : Path} (hw : x.Watched p) :
    ∃ rest, Path.relativeTo? x.root p = some rest ∧ Asked sent (x.root.join rest) := by
  obtain ⟨source, hsource, rest, hrest, hstands⟩ := hw
  have hpattern := head?_ne_of_mem_sources source (watchPatterns_of_live hlive ▸ hsource)
  have hwatch : watchOf x ∈ s.sites.map watchOf := List.mem_map_of_mem hx
  rw [← h.live, List.mem_filter, decide_eq_true_iff] at hwatch
  refine ⟨rest, hrest, watchOf x, hwatch.1, hwatch.2, _, List.mem_map_of_mem hsource, ?_⟩
  exact Site.standsFor_join hroot hself hpattern (Path.head?_relativeTo?_ne hroot hrest) hstands

/-- What a live site **reacts to is asked for**, if its root reads as itself. -/
theorem asked_of_ne {sent : List Notice} (h : s.InStep sent) {x : Site} (hx : x ∈ s.sites)
    (hlive : x.Live) (hroot : x.root.isAbsolute = true) (hself : Glob.SelfReading x.root.text.toList)
    {tree : FileTree} {p : Path} {event : FileEvent} (hne : x.onEvent tree p event ≠ x) :
    ∃ rest, Path.relativeTo? x.root p = some rest ∧ Asked sent (x.root.join rest) := by
  refine asked_of_watched h hx hlive hroot hself ?_
  obtain ⟨id, root, calls, rfl⟩ := hlive
  exact (Site.routed_onEvent id root calls tree p event).watched hne

/-- **Events reach what they concern.**  What an event makes of a site is no more than what its path
concerns, in whatever state the site is, and a batch of changes makes of each live site what the
changes make of it in their order.

In a running session that registers its watchers, what the client has been asked to report and not been told
to stop are the patterns of the live sites, each joined to the root of its site.  Every change that a live site
reacts to is one of those, under its name below the root, if the root reads as itself in a glob. -/
theorem events_routed (tree : FileTree) :
    (∀ (id : Nat) (root : Path) (calls : List Site.Call) (p : Path) (event : FileEvent),
        let s := (Site.new id root).run calls
        Site.Routed tree p event s (s.onEvent tree p event)) ∧
    (∀ (s : Session) (changes : List (String × Nat)),
      let t := (s.handle tree (.didChangeWatchedFiles changes)).session
      t = { s with sites := t.sites } ∧ List.Forall₂ (Hears tree changes) s.sites t.sites) ∧
    ∀ calls : List Call, (after {} calls).phase = .running → (after {} calls).dynamicWatchers = true →
      let sites := (after {} calls).sites
      let sent := sentBy {} calls
      (sent.flatMap Notice.watching).filter (·.1 ∉ sent.flatMap Notice.unregistered) =
        sites.map (fun x => (registrationName x.id, x.watchPatterns.map fun w => (x.root.join w).text)) ∧
      ∀ x ∈ sites, Glob.SelfReading x.root.text.toList →
        ∀ (p : Path) (event : FileEvent), x.onEvent tree p event ≠ x →
          ∃ rest, Path.relativeTo? x.root p = some rest ∧ Asked sent (x.root.join rest) := by
  refine ⟨fun id root calls => Site.routed_onEvent id root calls tree, fun s changes => ?_,
    fun calls hrun hdyn => ?_⟩
  · have ht : (s.handle tree (.didChangeWatchedFiles changes)).session =
        { s with sites := s.sites.map (eventsTold tree (eventsOf changes)) } :=
      filesChanged_eq tree s (eventsOf changes)
    dsimp only
    rw [ht]
    refine ⟨rfl, ?_⟩
    rw [List.forall₂_map_right_iff, List.forall₂_same]
    exact fun x _ => hears_eventsTold tree changes x
  · have hr := running_of_phase calls hrun
    have h := hr.inStep hdyn
    exact ⟨h.live, fun x hx hself p event hne =>
      asked_of_ne h hx (live_after calls x hx) (hr.orderly.absolute x hx) hself hne⟩

/-! ## One file more -/

/-- One folder with some files, which is a site. -/
def siteNamed (folder : String) (files : List (Location × Entry)) : FileTree :=
  ⟨([folder], .directory) ::
    ([folder, "composer.json"],
      .file "\x7b\"require\":\x7b\"drupal/core-recommended\":\"^10\"\x7d\x7d".toUTF8) :: files⟩

/-- The site once its first file with global variables has been written. -/
def grown (folder : String) : FileTree :=
  siteNamed folder
    [([folder, "web"], .directory), ([folder, "web", "core"], .directory),
     ([folder, "web", "core", "globals.api.php"], .file "<?php\n".toUTF8)]

/-- A session is opened on a folder, which is given by its URI. -/
def startedIn (folder uri : String) : List Call :=
  [⟨siteNamed folder [], "initialize", some (watchingParams [uri])⟩,
   ⟨siteNamed folder [], "initialized", some (.object [])⟩]

/-- The numbers of files of which a site has read the global variables. -/
def globalFiles (sites : List Site) : List Nat := sites.map (·.caches.globals.snapshot.entries.length)

/-- A site for which an event changes what it has read is changed by it. -/
theorem onEvent_ne_of_globalFiles {sites : List Site} {x : Site} (hx : sites = [x]) {tree : FileTree} {p : Path}
    {event : FileEvent} (h : globalFiles (sites.map (·.onEvent tree p event)) ≠ globalFiles sites) :
    x.onEvent tree p event ≠ x := by
  intro heq
  rw [hx, List.map_singleton, heq] at h
  exact h rfl

theorem events_routed_created :
    let sites := (after {} (startedIn "site" "file:///site")).sites
    let sent := sentBy {} (startedIn "site" "file:///site")
    ∃ x, sites = [x] ∧
      x.onEvent (grown "site") ⟨"/site/web/core/globals.api.php"⟩ .created ≠ x ∧
      ∃ rest, Path.relativeTo? x.root ⟨"/site/web/core/globals.api.php"⟩ = some rest ∧
        Asked sent (x.root.join rest) := by
  intro sites sent
  have hlen : sites.length = 1 := by decide +kernel
  obtain ⟨x, hx⟩ := List.length_eq_one_iff.mp hlen
  have hroot : ∀ y ∈ sites, Glob.SelfReading y.root.text.toList := by decide +kernel
  have hne : x.onEvent (grown "site") ⟨"/site/web/core/globals.api.php"⟩ .created ≠ x :=
    onEvent_ne_of_globalFiles hx (by decide +kernel)
  have hmem : x ∈ sites := hx ▸ List.mem_singleton_self x
  refine ⟨x, hx, hne, ?_⟩
  exact ((events_routed (grown "site")).2.2 (startedIn "site" "file:///site") (by decide +kernel)
    (by decide +kernel)).2 x hmem (hroot x hmem) _ _ hne

/-- The globs that are asked for below a root whose name has brackets. -/
def bracketedGlobs : List String :=
  ["/site[1]/web/\x7bcore,core/modules/*,modules/contrib/*,modules/custom/*\x7d/*.\x7bapi.php,module,theme\x7d",
   "/site[1]/web/\x7bcore/modules,modules/contrib,modules/custom\x7d/*/*.routing.yml",
   "/site[1]/web/\x7bcore,core/modules/*,modules/contrib/*,modules/custom/*\x7d/*.services.yml",
   "/site[1]/web/core/globals.api.php",
   "/site[1]/web/modules/custom/**/*.po",
   "/site[1]/composer.lock"]

/-- A new file below such a root **changes the site, and the client has not been asked for it**: in the globs
the brackets are read as a class of characters. -/
theorem bracketed_root_unasked :
    let calls := startedIn "site[1]" "file:///site%5B1%5D"
    (after {} calls).phase = .running ∧ (after {} calls).dynamicWatchers = true ∧
      (sentBy {} calls).flatMap Notice.watching = [("drupal-watchers-1", bracketedGlobs)] ∧
      ∃ x ∈ (after {} calls).sites,
        x.onEvent (grown "site[1]") ⟨"/site[1]/web/core/globals.api.php"⟩ .created ≠ x ∧
        ¬Asked (sentBy {} calls) ⟨"/site[1]/web/core/globals.api.php"⟩ := by
  intro calls
  have hrun : (after {} calls).phase = .running := by decide +kernel
  have hdyn : (after {} calls).dynamicWatchers = true := by decide +kernel
  have hended : (sentBy {} calls).flatMap Notice.unregistered = [] := by decide +kernel
  have hsites : (after {} calls).sites.map (fun x => (x.id, x.root)) = [(1, ⟨"/site[1]"⟩)] := by
    decide +kernel
  obtain ⟨x, hx, hidroot⟩ := List.map_eq_singleton_iff.mp hsites
  obtain ⟨hid, hroot⟩ := Prod.mk.inj hidroot
  have hmem : x ∈ (after {} calls).sites := hx ▸ List.mem_singleton_self x
  have hwatching : (sentBy {} calls).flatMap Notice.watching = [("drupal-watchers-1", bracketedGlobs)] := by
    have hlive := ((running_of_phase calls hrun).inStep hdyn).live
    rw [hx, hended, List.filter_eq_self.mpr (by simp), List.map_singleton, watchOf, nameOf, hid, hroot,
      watchPatterns_of_live (live_after calls x hmem)] at hlive
    exact hlive.trans (by decide +kernel)
  refine ⟨hrun, hdyn, hwatching, x, hmem, onEvent_ne_of_globalFiles hx (by decide +kernel), ?_⟩
  have hnone : ∀ glob ∈ bracketedGlobs,
      ¬Glob.StandsFor glob.toList "/site[1]/web/core/globals.api.php".toList := by decide +kernel
  rintro ⟨r, hr, -, glob, hglob, hstands⟩
  rw [hwatching, List.mem_singleton] at hr
  subst hr
  exact hnone glob hglob hstands

end SiteAssist.Server.Session
