import Mathlib.Data.List.Pairwise
import SiteAssist.Proofs.Server.Decoding
import SiteAssist.Proofs.Site.Locating
import SiteAssist.Proofs.Site.Run

/-!
# What a message makes of the sites

What a message that is worked on makes of the sites of a session is said once (`Step`): either every site
is kept, changed at most in what it has read, or some sites go and others come.  With it go the names by
which the client is told of the sites (`Told`), and the class file that a site is asked for (`Lookup`).

* `step_handle`: **each message that is worked on makes a step**.
* `Step.orderly`: a step keeps a session **in order**, its sites with numbers of their own below the next
  one and with roots of their own among the folders.
-/

namespace SiteAssist

/-- Two sites with numbers and roots of their own. -/
def Site.Apart (x y : Site) : Prop := x.id ≠ y.id ∧ x.root.same y.root = false

instance : Std.Symm Site.Apart := ⟨fun x y h => ⟨h.1.symm, by rw [Path.same_comm, h.2]⟩⟩

end SiteAssist

namespace SiteAssist.Server

open Offer.Templates (Outlines)

/-! ## Lookups -/

/-- A class file that a site is asked for, and the files as they then are. -/
structure Lookup where
  site : Nat
  file : Path
  tree : FileTree

namespace Session

/-- What is to be resolved for an item: nothing if it is documented or has no payload. -/
def asked? (item : Json) : Option Completion :=
  let data := (item.get? "data").filter (!·.isNull)
  let documented := ((item.get? "documentation").filter (!·.isNull)).isSome
  let label := ((item.get? "label").bind Json.asString?).getD ""
  if documented ∨ data.isNone then none else some { label, kind := .function, data }

/-- The class file that a message asks a site for. -/
def lookup? (s : Session) (tree : FileTree) : Message → Option Lookup
  | .resolve item => do
    let pending ← asked? item
    let site ← s.sites.find? (·.owns pending)
    let (className, _) ← Offer.Templates.callbackOf? pending
    some ⟨site.id, Offer.Templates.classPath site.root className, tree⟩
  | _ => none

end Session

/-! ## What the client is told -/

/-- The names under a key of the parameters, in messages of one method. -/
def Notice.namesUnder (method key : String) (n : Notice) : List String :=
  if n.method = method then
    match n.params.get? key with
    | some (.array items) => items.filterMap fun v => (v.get? "id").bind Json.asString?
    | _ => []
  else []

/-- The names that a message registers. -/
def Notice.registered (n : Notice) : List String :=
  n.namesUnder "client/registerCapability" "registrations"

/-- The names whose registration a message ends. -/
def Notice.unregistered (n : Notice) : List String :=
  n.namesUnder "client/unregisterCapability" "unregisterations"

/-- The glob of a watcher that asks for creations, changes and deletions, whose bits are 1, 2 and 4. -/
def globOf? (watcher : Json) : Option String :=
  match watcher.get? "kind" with
  | some (.number (.integer 7)) => (watcher.get? "globPattern").bind Json.asString?
  | _ => none

/-- The globs of a registration. -/
def globsOf (registration : Json) : List String :=
  match (registration.get? "registerOptions").bind (·.get? "watchers") with
  | some (.array watchers) => watchers.filterMap globOf?
  | _ => []

/-- What a message asks the client to watch: under each name that it registers some globs. -/
def Notice.watching (n : Notice) : List (String × List String) :=
  if n.method = "client/registerCapability" then
    match n.params.get? "registrations" with
    | some (.array items) =>
      items.filterMap fun v => ((v.get? "id").bind Json.asString?).map (·, globsOf v)
    | _ => []
  else []

theorem Notice.watching_registerWatchers (id : Nat) (globs : List String) :
    (Notice.registerWatchers id globs).watching = [(registrationName id, globs)] := by
  have hglobs : List.filterMap globOf? (globs.map fun g =>
      Json.mkObject [("globPattern", .string g), ("kind", .nat allEvents)]) = globs := by
    rw [List.filterMap_map]
    exact List.filterMap_some
  exact congrArg (fun g => [(registrationName id, g)]) hglobs

/-- The names that a message registers are those under which it asks for something. -/
theorem Notice.registered_eq (n : Notice) : n.registered = n.watching.map (·.1) := by
  rw [registered, namesUnder, watching]
  split
  · split
    · rw [List.map_filterMap]
      refine List.filterMap_congr fun v _ => ?_
      cases (v.get? "id").bind Json.asString? <;> rfl
    · rfl
  · rfl

/-- The name under which a site is watched. -/
def nameOf (x : Site) : String := registrationName x.id

/-- The globs that are watched for a site, under its name. -/
def watchOf (x : Site) : String × List String :=
  (nameOf x, x.watchPatterns.map fun p => (x.root.join p).text)

/-- Messages that ask for just these globs and end just these names. -/
def Told (sent : List Notice) (asked : List (String × List String)) (gone : List String) : Prop :=
  sent.flatMap Notice.watching = asked ∧ sent.flatMap Notice.unregistered = gone

theorem Told.append {sent more : List Notice} {asked asked' : List (String × List String)}
    {gone gone' : List String} (h : Told sent asked gone) (h' : Told more asked' gone') :
    Told (sent ++ more) (asked ++ asked') (gone ++ gone') := by
  rw [Told, List.flatMap_append, List.flatMap_append, h.1, h.2, h'.1, h'.2]
  exact ⟨rfl, rfl⟩

theorem told_nil : Told [] [] [] := ⟨rfl, rfl⟩

/-- What is told of some sites, if the client is to be told of them. -/
def toldOf {α : Type} (f : Site → α) (dynamic : Bool) (sites : List Site) : List α :=
  if dynamic then sites.map f else []

theorem toldOf_nil {α : Type} (f : Site → α) (dynamic : Bool) : toldOf f dynamic [] = [] := by
  rw [toldOf, List.map_nil, ite_self]

theorem toldOf_append {α : Type} (f : Site → α) (dynamic : Bool) (xs ys : List Site) :
    toldOf f dynamic (xs ++ ys) = toldOf f dynamic xs ++ toldOf f dynamic ys := by
  rw [toldOf, toldOf, toldOf]
  split <;> simp

theorem flatMap_toldOf {α : Type} (f : Site → α) (dynamic : Bool) (xs : List Site) :
    xs.flatMap (fun x => toldOf f dynamic [x]) = toldOf f dynamic xs := by
  induction xs with
  | nil => rw [List.flatMap_nil, toldOf_nil]
  | cons x xs ih => rw [List.flatMap_cons, ih, ← toldOf_append, List.singleton_append]

namespace Session

variable {s : Session} {tree : FileTree}

theorem told_traceLine (s : Session) (text : String) : Told (s.traceLine text) [] [] := by
  rw [traceLine]
  split <;> exact ⟨rfl, rfl⟩

theorem told_registration (s : Session) (site : Site) :
    Told (s.registration site) (toldOf watchOf s.dynamicWatchers [site]) [] := by
  rw [registration, toldOf]
  split
  · refine ⟨?_, rfl⟩
    rw [List.flatMap_singleton, Notice.watching_registerWatchers]
    rfl
  · exact told_nil

theorem told_unregistrations (s : Session) (sites : List Site) :
    Told (sites.flatMap s.unregistration) [] (toldOf nameOf s.dynamicWatchers sites) := by
  induction sites with
  | nil =>
    rw [toldOf_nil]
    exact told_nil
  | cons x xs ih =>
    have hone : Told (s.unregistration x) [] (toldOf nameOf s.dynamicWatchers [x]) := by
      rw [unregistration, toldOf]
      split <;> exact ⟨rfl, rfl⟩
    have := hone.append ih
    rwa [← toldOf_append] at this

/-! ## The parts of a step -/

/-- A step that does no more than warn, and tells of some sites. -/
def Warns {α : Type} (step : Session → α → Sent Session)
    (asked : Bool → α → List (String × List String)) : Prop :=
  ∀ s a, ∃ w, (step s a).1 = { s with warned := w } ∧
    Told (step s a).2 (asked s.dynamicWatchers a) []

theorem forEach_cons {α : Type} (step : Session → α → Sent Session) (s : Session) (a : α)
    (as : List α) :
    forEach step s (a :: as) =
      ((forEach step (step s a).1 as).1, (step s a).2 ++ (forEach step (step s a).1 as).2) := rfl

theorem Warns.forEach {α : Type} {step : Session → α → Sent Session}
    {asked : Bool → α → List (String × List String)} (h : Warns step asked) :
    Warns (forEach step) fun dynamic as => as.flatMap (asked dynamic) := by
  intro s as
  induction as generalizing s with
  | nil => exact ⟨s.warned, rfl, told_nil⟩
  | cons a as ih =>
    obtain ⟨w, hs, ht⟩ := h s a
    obtain ⟨w', hs', ht'⟩ := ih (step s a).1
    rw [forEach_cons]
    rw [hs] at hs' ht' ⊢
    exact ⟨w', hs', ht.append ht'⟩

theorem warns_checkTool (tree : FileTree) (site : Site) :
    Warns (checkTool tree site) fun _ _ => [] := by
  intro s tool
  rw [checkTool]
  split
  · exact ⟨s.warned, rfl, told_nil⟩
  · split
    · exact ⟨s.warned, rfl, told_nil⟩
    · split
      · exact ⟨s.warned, rfl, told_nil⟩
      · exact ⟨_, rfl, rfl, rfl⟩

theorem warns_checkTools (tree : FileTree) : Warns (checkTools tree) fun _ _ => [] :=
  fun s site => (warns_checkTool tree site).forEach s Tool.all

theorem warns_announce (tree : FileTree) :
    Warns (announce tree) fun dynamic site => toldOf watchOf dynamic [site] := by
  intro s site
  obtain ⟨w, hs, ht⟩ := warns_checkTools tree s site
  refine ⟨w, hs, ?_⟩
  have := ((s.told_traceLine ("Drupal workspace ready: " ++ site.root.text)).append
    (s.told_registration site)).append ht
  rwa [List.nil_append, List.append_nil] at this

/-- The sites that come with some folders. -/
def found (tree : FileTree) (s : Session) (folders : List Path) : List Site :=
  (Site.locate tree s.nextId (folders.filter (!s.isLive ·))).map (·.populate tree)

theorem arrivals_found (tree : FileTree) (s : Session) (folders : List Path) :
    Site.Arrivals tree s.nextId s.sites folders (found tree s folders) :=
  Site.arrivals_locate tree s.nextId s.sites folders

theorem addSites_eq (tree : FileTree) (s : Session) (folders : List Path) :
    addSites tree s folders =
      let added := found tree s folders
      let announced := forEach (announce tree) { s with nextId := s.nextId + added.length } added
      ({ announced.1 with sites := announced.1.sites ++ added }, announced.2) := rfl

/-- What adding sites makes of a session. -/
theorem addSites_spec (tree : FileTree) (s : Session) (folders : List Path) :
    ∃ w, (addSites tree s folders).1 =
        { s with
          warned := w
          nextId := s.nextId + (found tree s folders).length
          sites := s.sites ++ found tree s folders } ∧
      Told (addSites tree s folders).2 (toldOf watchOf s.dynamicWatchers (found tree s folders)) [] := by
  obtain ⟨w, hs, ht⟩ := (warns_announce tree).forEach
    { s with nextId := s.nextId + (found tree s folders).length } (found tree s folders)
  simp only [addSites_eq, hs]
  refine ⟨w, rfl, ?_⟩
  rw [← flatMap_toldOf]
  exact ht

/-! ## Steps -/

/-- What a site has read once a lookup has been answered, of its own or of another. -/
def outlinesAfter (look : Option Lookup) (x : Site) : Outlines :=
  match look with
  | some l =>
    if l.site = x.id then (Offer.Templates.methodsAt l.tree x.outlines l.file).2 else x.outlines
  | none => x.outlines

/-- A site that is kept: only what it has read may be another. -/
structure Kept (look : Option Lookup) (x y : Site) : Prop where
  id : y.id = x.id
  root : y.root = x.root
  watched : y.watchPatterns = x.watchPatterns
  outlines : y.outlines = outlinesAfter look x
  noPayload : x.caches.NoPayload → y.caches.NoPayload

theorem Kept.refl {look : Option Lookup} {x : Site} (h : outlinesAfter look x = x.outlines) :
    Kept look x x := ⟨rfl, rfl, rfl, h.symm, fun h => h⟩

theorem Kept.watchOf {look : Option Lookup} {x y : Site} (h : Kept look x y) : watchOf y = watchOf x := by
  rw [Server.watchOf, Server.watchOf, nameOf, nameOf, h.id, h.root, h.watched]

/-- What every message that is worked on makes of a session. -/
inductive Step (s : Session) (tree : FileTree) (look : Option Lookup) :
    Session → List Notice → Prop
  /-- every site is kept -/
  | kept {t : Session} {sent : List Notice} (f : Site → Site)
      (keeps : ∀ x ∈ s.sites, Kept look x (f x)) (sites : t.sites = s.sites.map f)
      (folders : t.folders = s.folders) (nextId : t.nextId = s.nextId)
      (phase : t.phase = s.phase) (dynamic : t.dynamicWatchers = s.dynamicWatchers)
      (told : Told sent [] []) : Step s tree look t sent
  /-- the sites of some folders go and others come -/
  | turned {t : Session} {sent : List Notice} (removed : List Path) (added : List Site)
      (idle : look = none)
      (arrivals : Site.Arrivals tree s.nextId
        (s.sites.filter fun x => !removed.any (x.root.same ·)) t.folders added)
      (sites : t.sites = s.sites.filter (fun x => !removed.any (x.root.same ·)) ++ added)
      (folders : ∀ f ∈ s.folders, removed.any (f.same ·) = false → f ∈ t.folders)
      (nextId : t.nextId = s.nextId + added.length)
      (phase : t.phase = s.phase) (dynamic : t.dynamicWatchers = s.dynamicWatchers)
      (told : Told sent (toldOf watchOf s.dynamicWatchers added)
        (toldOf nameOf s.dynamicWatchers (s.sites.filter fun x => removed.any (x.root.same ·)))) :
      Step s tree look t sent

theorem Step.same {t : Session} {sent : List Notice} (sites : t.sites = s.sites)
    (folders : t.folders = s.folders) (nextId : t.nextId = s.nextId) (phase : t.phase = s.phase)
    (dynamic : t.dynamicWatchers = s.dynamicWatchers) (told : Told sent [] []) :
    Step s tree none t sent :=
  .kept id (fun _ _ => .refl rfl) (by rw [sites, List.map_id]) folders nextId phase dynamic told

/-- A session in order: its sites have numbers of their own below the next one, and roots of their own
among the folders. -/
structure Orderly (s : Session) : Prop where
  numbered : ∀ x ∈ s.sites, x.id < s.nextId
  apart : s.sites.Pairwise Site.Apart
  rooted : ∀ x ∈ s.sites, x.root ∈ s.folders
  absolute : ∀ x ∈ s.sites, x.root.isAbsolute = true
  noPayload : ∀ x ∈ s.sites, x.caches.NoPayload

theorem Orderly.eq_of_id (h : s.Orderly) {x y : Site} (hx : x ∈ s.sites) (hy : y ∈ s.sites)
    (hid : x.id = y.id) : x = y := by
  by_contra hne
  exact (h.apart.forall hx hy hne).1 hid

theorem Orderly.eq_of_root (h : s.Orderly) {x y : Site} (hx : x ∈ s.sites) (hy : y ∈ s.sites)
    (hroot : x.root.same y.root = true) : x = y := by
  by_contra hne
  simp [(h.apart.forall hx hy hne).2] at hroot

/-- Replacing one site by what it has become keeps them all. -/
theorem step_withSite (h : s.Orderly) {look : Option Lookup} {x y : Site} (hx : x ∈ s.sites)
    (hy : Kept look x y) (hother : ∀ z, z.id ≠ x.id → outlinesAfter look z = z.outlines) :
    Step s tree look (s.withSite y) [] := by
  refine .kept (fun z => if z.same y then y else z) (fun z hz => ?_) rfl rfl rfl rfl rfl told_nil
  by_cases hid : z.id = x.id
  · obtain rfl := h.eq_of_id hz hx hid
    rw [if_pos (by rw [Site.same, hy.id, beq_self_eq_true])]
    exact hy
  · rw [if_neg (by rw [Site.same, hy.id, beq_iff_eq]; exact hid)]
    exact .refl (hother z hid)

/-- A site after some events, one after the other. -/
def eventsTold (tree : FileTree) (events : List (Path × FileEvent)) (site : Site) : Site :=
  events.foldl (fun site event => site.onEvent tree event.1 event.2) site

/-- To tell all sites of one event after the other is to tell each site of all events. -/
theorem foldl_tell (tree : FileTree) (events : List (Path × FileEvent)) (sites : List Site) :
    events.foldl (tell tree) sites = sites.map (eventsTold tree events) := by
  induction events generalizing sites with
  | nil => exact (List.map_id' sites).symm
  | cons e es ih =>
    rw [List.foldl_cons, ih, tell, List.map_map]
    rfl

theorem kept_onEvent (tree : FileTree) (x : Site) (p : Path) (event : FileEvent) :
    Kept none x (x.onEvent tree p event) := by
  refine ⟨?_, ?_, x.watchPatterns_perform ⟨tree, .event p event⟩, ?_,
    fun h => Site.noPayload_onEvent h tree p event⟩
  all_goals
    rw [Site.onEvent]
    split
    · rfl
    · split <;> rfl

theorem kept_eventsTold (tree : FileTree) (events : List (Path × FileEvent)) (x : Site) :
    Kept none x (eventsTold tree events x) := by
  induction events generalizing x with
  | nil => exact .refl rfl
  | cons e es ih =>
    have hx := kept_onEvent tree x e.1 e.2
    have hy := ih (x.onEvent tree e.1 e.2)
    exact ⟨hy.id.trans hx.id, hy.root.trans hx.root, hy.watched.trans hx.watched,
      hy.outlines.trans hx.outlines, fun h => hy.noPayload (hx.noPayload h)⟩

theorem step_filesChanged (tree : FileTree) (s : Session) (events : List (Path × FileEvent)) :
    Step s tree none (filesChanged tree s events).1 (filesChanged tree s events).2 := by
  rw [filesChanged, foldl_tell]
  split
  · exact .same rfl rfl rfl rfl rfl told_nil
  · exact .kept _ (fun x _ => kept_eventsTold tree events x) rfl rfl rfl rfl rfl (told_traceLine s _)

/-- The session without the removed folders and their sites, and with the folders that are added. -/
def turned (s : Session) (removed added : List Path) : Session :=
  { s with
    folders := s.folders.filter (fun f => !removed.any (·.same f)) ++ added
    sites := s.sites.filter fun x => !removed.any (x.root.same ·) }

theorem foldersChanged_eq (tree : FileTree) (s : Session) (removed added : List Path) :
    foldersChanged tree s removed added =
      ((addSites tree (s.turned removed added) added).1,
        (s.sites.filter fun x => removed.any (x.root.same ·)).flatMap s.unregistration ++
          (addSites tree (s.turned removed added) added).2) := rfl

/-- Adding sites after some have gone is a step. -/
theorem step_addSites (tree : FileTree) {b : Session} (removed : List Path) {folders : List Path}
    {sent : List Notice} (sites : b.sites = s.sites.filter fun x => !removed.any (x.root.same ·))
    (kept : ∀ f ∈ s.folders, removed.any (f.same ·) = false → f ∈ b.folders)
    (named : folders ⊆ b.folders) (nextId : b.nextId = s.nextId) (phase : b.phase = s.phase)
    (dynamic : b.dynamicWatchers = s.dynamicWatchers)
    (told : Told sent []
      (toldOf nameOf s.dynamicWatchers (s.sites.filter fun x => removed.any (x.root.same ·)))) :
    Step s tree none (addSites tree b folders).1 (sent ++ (addSites tree b folders).2) := by
  obtain ⟨w, hs, ht⟩ := addSites_spec tree b folders
  have harr := arrivals_found tree b folders
  rw [sites, nextId] at harr
  have htold := told.append ht
  rw [List.nil_append, List.append_nil, dynamic] at htold
  refine .turned removed (found tree b folders) rfl
    { harr with named := fun x hx => ?_ } ?_ (fun f hf hkept => ?_) ?_ ?_ ?_ htold
  all_goals rw [hs]
  · exact named (harr.named x hx)
  · rw [sites]
  · exact kept f hf hkept
  · rw [nextId]
  · exact phase
  · exact dynamic

theorem step_initialized (tree : FileTree) (s : Session) :
    Step s tree none (s.handle tree .initialized).session (s.handle tree .initialized).sent := by
  have hall : s.sites.filter (fun x => !([] : List Path).any (x.root.same ·)) = s.sites := by
    rw [List.filter_eq_self]
    exact fun _ _ => rfl
  have hgone : s.sites.filter (fun x => ([] : List Path).any (x.root.same ·)) = [] := by
    rw [List.filter_eq_nil_iff]
    exact fun _ _ h => by simp at h
  have htold : Told [.logInfo (serverName ++ " server initialized")] []
      (toldOf nameOf s.dynamicWatchers (s.sites.filter fun x => ([] : List Path).any (x.root.same ·))) := by
    rw [hgone, toldOf_nil]
    exact ⟨rfl, rfl⟩
  exact step_addSites tree [] hall.symm (fun f hf _ => hf) (fun f hf => hf) rfl rfl rfl htold

theorem step_foldersChanged (tree : FileTree) (s : Session) (removed added : List Path) :
    Step s tree none (foldersChanged tree s removed added).1
      (foldersChanged tree s removed added).2 := by
  rw [foldersChanged_eq]
  refine step_addSites tree removed rfl (fun f hf hkept => ?_) (fun f hf => ?_) rfl rfl rfl
    (told_unregistrations s _)
  · refine List.mem_append_left _ (List.mem_filter.mpr ⟨hf, ?_⟩)
    simpa only [Path.same_comm, Bool.not_eq_true'] using hkept
  · exact List.mem_append_right _ hf

theorem documentation_of_asked {item : Json} {pending : Completion} (h : asked? item = some pending) :
    pending.documentation = none := by
  simp only [asked?] at h
  split at h
  · simp at h
  · cases h
    rfl

/-- An item as it is given back, with a documentation or without. -/
def replyOf (item : Json) : Option String → Json
  | some text => documentedItem item text
  | none => item

/-- The answer and the session by what is asked. -/
theorem resolved_eq (tree : FileTree) (s : Session) (item : Json) :
    s.resolved tree item =
      match asked? item with
      | none => (.item item, s)
      | some pending =>
        match s.sites.find? (·.owns pending) with
        | none => (.item item, s)
        | some site =>
          (.item (replyOf item (site.resolve tree pending).1.documentation),
            s.withSite (site.resolve tree pending).2) := by
  simp only [resolved, asked?]
  split
  · rfl
  · dsimp only
    generalize s.sites.find? _ = found
    cases found with
    | none => rfl
    | some site =>
      dsimp only
      cases (site.resolve tree _).1.documentation <;> rfl

theorem resolved_of_owner (tree : FileTree) {item : Json} {pending : Completion} {site : Site}
    (hasked : asked? item = some pending) (howner : s.sites.find? (·.owns pending) = some site) :
    s.resolved tree item =
      (.item (replyOf item (site.resolve tree pending).1.documentation),
        s.withSite (site.resolve tree pending).2) := by
  rw [resolved_eq, hasked]
  simp only [howner]

/-- What a site has read once it has resolved an item. -/
theorem outlines_resolve (tree : FileTree) (site : Site) {pending : Completion}
    (hp : pending.documentation = none) :
    (site.resolve tree pending).2.outlines =
      match Offer.Templates.callbackOf? pending with
      | some (className, _) =>
        (Offer.Templates.methodsAt tree site.outlines
          (Offer.Templates.classPath site.root className)).2
      | none => site.outlines := by
  rw [Site.resolve, Offer.Templates.resolve, hp]
  cases Offer.Templates.callbackOf? pending with
  | none => rfl
  | some callback =>
    dsimp only
    split <;> rfl

/-- Resolving an item reads for its own site alone. -/
theorem step_resolved (h : s.Orderly) (tree : FileTree) (item : Json) :
    Step s tree (s.lookup? tree (.resolve item)) (s.resolved tree item).2 [] := by
  rw [resolved_eq, lookup?]
  cases ha : asked? item with
  | none => exact .same rfl rfl rfl rfl rfl told_nil
  | some pending =>
    cases hf : s.sites.find? (·.owns pending) with
    | none =>
      simp only [Option.bind_eq_bind, Option.bind_some, hf, Option.bind_none]
      exact .same rfl rfl rfl rfl rfl told_nil
    | some site =>
      have hread := outlines_resolve tree site (documentation_of_asked ha)
      simp only [Option.bind_eq_bind, Option.bind_some, hf]
      refine step_withSite h (List.mem_of_find?_eq_some hf) ⟨rfl, rfl, rfl, ?_, fun h => h⟩ ?_
      · rw [hread]
        cases Offer.Templates.callbackOf? pending with
        | none => rfl
        | some callback => simp only [Option.bind_some, outlinesAfter, if_pos]
      · intro z hz
        cases Offer.Templates.callbackOf? pending with
        | none => rfl
        | some callback => simp only [Option.bind_some, outlinesAfter, if_neg (Ne.symm hz)]

theorem step_executed (h : s.Orderly) (tree : FileTree) {command : String} {arguments : List Json}
    {reply : Reply} {t : Session} (he : s.executed tree command arguments = .ok (reply, t)) :
    Step s tree none t [] := by
  unfold executed at he
  split at he
  · simp at he
  · split at he
    · split at he
      · rename_i uri symbol _ site hsite
        cases he
        obtain ⟨p, _, hp⟩ := Option.bind_eq_some_iff.mp hsite
        have hx : site ∈ s.sites := List.mem_of_mem_filter (List.mem_of_head? hp)
        refine step_withSite h hx ?_ (fun _ _ => rfl)
        have hversion (x : Site) : Kept none x (x.coreVersion tree).2 := by
          rw [Site.coreVersion]
          split <;> exact ⟨rfl, rfl, rfl, rfl, fun h => h⟩
        exact hversion site
      · cases he
        exact .same rfl rfl rfl rfl rfl told_nil
    · simp at he

/-- **Each message that is worked on makes a step**, and its lookup is what it reads. -/
theorem step_handle (h : s.Orderly) (tree : FileTree) {m : Message} (hm : m.IsWork) :
    Step s tree (s.lookup? tree m) (s.handle tree m).session (s.handle tree m).sent := by
  cases m with
  | start | shutdown | exit => simp [Message.IsWork, Message.method] at hm
  | initialized => exact step_initialized tree s
  | didOpen uri languageId text => exact .same rfl rfl rfl rfl rfl (told_traceLine s _)
  | didChange uri changes =>
    show Step s tree none (s.documentChanged uri changes) []
    rw [documentChanged]
    split <;> exact .same rfl rfl rfl rfl rfl told_nil
  | didClose uri => exact .same rfl rfl rfl rfl rfl told_nil
  | didChangeWatchedFiles changes => exact step_filesChanged tree s _
  | didChangeWorkspaceFolders removed added => exact step_foldersChanged tree s _ _
  | didChangeConfiguration payload =>
    show Step s tree none (s.configured tree payload).1 (s.configured tree payload).2
    rw [configured]
    split
    · exact .same rfl rfl rfl rfl rfl told_nil
    · rename_i settings _
      obtain ⟨w, hs, ht⟩ := (warns_checkTools tree).forEach { s with settings } s.sites
      rw [hs]
      exact .same rfl rfl rfl rfl rfl
        ⟨ht.1.trans (List.flatMap_eq_nil_iff.mpr fun _ _ => rfl), ht.2⟩
  | executeCommand command arguments =>
    simp only [handle, lookup?]
    split
    · rename_i he
      exact step_executed h tree he
    · exact .same rfl rfl rfl rfl rfl told_nil
  | completion uri position =>
    refine .same rfl rfl rfl rfl rfl ?_
    show Told (s.completions tree uri position).2 [] []
    rw [completions]
    split
    · exact told_nil
    · split
      · exact told_nil
      · exact told_traceLine s _
  | resolve item => exact step_resolved h tree item

theorem orderly_initialised (params : Initialization) :
    (({} : Session).initialised params).Orderly := by
  have hnone : (({} : Session).initialised params).sites = [] := rfl
  constructor <;> rw [hnone] <;> simp

/-- Where every site is kept, the order is. -/
theorem Orderly.kept {t : Session} {look : Option Lookup} (h : s.Orderly) {f : Site → Site}
    (keeps : ∀ x ∈ s.sites, Kept look x (f x)) (sites : t.sites = s.sites.map f)
    (folders : t.folders = s.folders) (nextId : t.nextId = s.nextId) : t.Orderly := by
  have hmem : ∀ y ∈ t.sites, ∃ x ∈ s.sites, Kept look x y := by
    intro y hy
    rw [sites] at hy
    obtain ⟨x, hx, rfl⟩ := List.mem_map.mp hy
    exact ⟨x, hx, keeps x hx⟩
  constructor
  case numbered =>
    intro y hy
    obtain ⟨x, hx, hxy⟩ := hmem y hy
    rw [hxy.id, nextId]
    exact h.numbered x hx
  case apart =>
    rw [sites, List.pairwise_map]
    refine h.apart.imp_of_mem fun {x y} hx hy hxy => ?_
    rw [Site.Apart, (keeps x hx).id, (keeps y hy).id, (keeps x hx).root, (keeps y hy).root]
    exact hxy
  case rooted =>
    intro y hy
    obtain ⟨x, hx, hxy⟩ := hmem y hy
    rw [hxy.root, folders]
    exact h.rooted x hx
  case absolute =>
    intro y hy
    obtain ⟨x, hx, hxy⟩ := hmem y hy
    rw [hxy.root]
    exact h.absolute x hx
  case noPayload =>
    intro y hy
    obtain ⟨x, hx, hxy⟩ := hmem y hy
    exact hxy.noPayload (h.noPayload x hx)

/-- Where the sites of some folders go and others come, the order is kept. -/
theorem Orderly.turned {t : Session} (h : s.Orderly) {removed : List Path} {added : List Site}
    (arrivals : Site.Arrivals tree s.nextId
      (s.sites.filter fun x => !removed.any (x.root.same ·)) t.folders added)
    (sites : t.sites = s.sites.filter (fun x => !removed.any (x.root.same ·)) ++ added)
    (folders : ∀ f ∈ s.folders, removed.any (f.same ·) = false → f ∈ t.folders)
    (nextId : t.nextId = s.nextId + added.length) : t.Orderly := by
  constructor
  case numbered =>
    intro x hx
    rw [nextId]
    rcases List.mem_append.mp (sites ▸ hx) with hx | hx
    · have := h.numbered x (List.mem_of_mem_filter hx)
      omega
    · exact (arrivals.id_mem hx).2
  case apart =>
    rw [sites, List.pairwise_append]
    refine ⟨h.apart.filter _, ?_, fun x hx y hy => ⟨?_, ?_⟩⟩
    · exact (List.pairwise_map.mp arrivals.nodup_ids).and arrivals.pairwise_root
    · have := h.numbered x (List.mem_of_mem_filter hx)
      have := (arrivals.id_mem hy).1
      omega
    · exact arrivals.strange y hy x hx
  case rooted =>
    intro x hx
    rcases List.mem_append.mp (sites ▸ hx) with hx | hx
    · have hkept := List.of_mem_filter hx
      rw [Bool.not_eq_true'] at hkept
      exact folders x.root (h.rooted x (List.mem_of_mem_filter hx)) hkept
    · exact arrivals.named x hx
  case absolute =>
    intro x hx
    rcases List.mem_append.mp (sites ▸ hx) with hx | hx
    · exact h.absolute x (List.mem_of_mem_filter hx)
    · exact Composer.isAbsolute_of_isSite (arrivals.located x hx)
  case noPayload =>
    intro x hx
    rcases List.mem_append.mp (sites ▸ hx) with hx | hx
    · exact h.noPayload x (List.mem_of_mem_filter hx)
    · exact arrivals.noPayload x hx

/-- **A step keeps the order.** -/
theorem Step.orderly {look : Option Lookup} {t : Session} {sent : List Notice}
    (hstep : Step s tree look t sent) (h : s.Orderly) : t.Orderly := by
  cases hstep with
  | kept f keeps sites folders nextId => exact h.kept keeps sites folders nextId
  | turned removed added _ arrivals sites folders nextId =>
    exact h.turned arrivals sites folders nextId

theorem Step.phase_eq {look : Option Lookup} {t : Session} {sent : List Notice}
    (hstep : Step s tree look t sent) : t.phase = s.phase := by
  cases hstep with
  | kept _ _ _ _ _ phase => exact phase
  | turned _ _ _ _ _ _ _ phase => exact phase

theorem Step.dynamic_eq {look : Option Lookup} {t : Session} {sent : List Notice}
    (hstep : Step s tree look t sent) : t.dynamicWatchers = s.dynamicWatchers := by
  cases hstep with
  | kept _ _ _ _ _ _ dynamic => exact dynamic
  | turned _ _ _ _ _ _ _ _ dynamic => exact dynamic

/-- A session later on: a site with a number that was given before is one that was live before, at
the same root. -/
structure Follows (s t : Session) : Prop where
  nextId : s.nextId ≤ t.nextId
  live : ∀ y ∈ t.sites, y.id < s.nextId → ∃ x ∈ s.sites, x.id = y.id ∧ x.root = y.root

theorem Follows.refl (s : Session) : s.Follows s := ⟨Nat.le_refl _, fun y hy _ => ⟨y, hy, rfl, rfl⟩⟩

theorem Follows.trans {t u : Session} (h : s.Follows t) (h' : t.Follows u) : s.Follows u := by
  have := h.nextId
  have := h'.nextId
  refine ⟨by omega, fun z hz hid => ?_⟩
  obtain ⟨y, hy, hyid, hyroot⟩ := h'.live z hz (by omega)
  obtain ⟨x, hx, hxid, hxroot⟩ := h.live y hy (by omega)
  exact ⟨x, hx, hxid.trans hyid, hxroot.trans hyroot⟩

/-- A site that is still live has the root that it had. -/
theorem Follows.root_eq {t : Session} (h : s.Follows t) (ho : s.Orderly) {x y : Site} (hx : x ∈ s.sites)
    (hy : y ∈ t.sites) (hid : y.id = x.id) : y.root = x.root := by
  obtain ⟨z, hz, hzid, hzroot⟩ := h.live y hy (hid ▸ ho.numbered x hx)
  obtain rfl := ho.eq_of_id hz hx (hzid.trans hid)
  exact hzroot.symm

theorem Step.follows {look : Option Lookup} {t : Session} {sent : List Notice}
    (hstep : Step s tree look t sent) : s.Follows t := by
  cases hstep with
  | kept f keeps sites folders nextId =>
    refine ⟨by omega, fun y hy _ => ?_⟩
    rw [sites] at hy
    obtain ⟨x, hx, rfl⟩ := List.mem_map.mp hy
    exact ⟨x, hx, (keeps x hx).id.symm, (keeps x hx).root.symm⟩
  | turned removed added _ arrivals sites folders nextId =>
    refine ⟨by omega, fun y hy hid => ?_⟩
    rcases List.mem_append.mp (sites ▸ hy) with hy | hy
    · exact ⟨y, List.mem_of_mem_filter hy, rfl, rfl⟩
    · have := (arrivals.id_mem hy).1
      omega

end Session

end SiteAssist.Server
