import SiteAssist.Proofs.Server.Run

/-!
# Sites, folders and what the client watches

The client watches files for the server, by registrations that it is sent.  Folders, live sites and
registrations are kept apart by the server; here they are shown to go together, whatever the client
sends and answers.  A registration is named by the number of its site, and no number is given twice, so
the names that have been sent and not been ended **are those of the live sites**, in their order, and the
globs that are asked for under them are those of the sites' caches.

* `InStep` is what holds of the names after any messages, and `InStep.step` that a step keeps it.
* `watchers_in_step` is all of it for the calls of a session.
-/

namespace SiteAssist.Server

theorem registrationName_inj {m n : Nat} : registrationName m = registrationName n ↔ m = n := by
  refine ⟨fun h => ?_, fun h => h ▸ rfl⟩
  have htext : m.repr = n.repr := (String.append_right_inj "drupal-watchers-").mp h
  have hdigits : Nat.toDigits 10 m = Nat.toDigits 10 n := by
    rw [Nat.repr_eq_ofList_toDigits, Nat.repr_eq_ofList_toDigits] at htext
    exact String.ofList_injective htext
  have hvalue := congrArg (Nat.ofDigitChars 10 · 0) hdigits
  simpa only [Nat.ofDigitChars_ten_toDigits] using hvalue

namespace Session

variable {s t : Session} {tree : FileTree} {sent : List Notice}

theorem mem_map_nameOf {sites : List Site} {n : Nat} :
    registrationName n ∈ sites.map nameOf ↔ ∃ x ∈ sites, x.id = n := by
  rw [List.mem_map]
  exact exists_congr fun x => and_congr_right fun _ => registrationName_inj

/-- The names that some messages register are those under which they ask for something. -/
theorem flatMap_registered (sent : List Notice) :
    sent.flatMap Notice.registered = (sent.flatMap Notice.watching).map (·.1) := by
  rw [List.map_flatMap]
  exact List.flatMap_congr fun n _ => n.registered_eq

/-- What the client has been told is in step with the sites of a session. -/
structure InStep (s : Session) (sent : List Notice) : Prop where
  /-- what is asked for and not ended are the globs of the live sites -/
  live : (sent.flatMap Notice.watching).filter (·.1 ∉ sent.flatMap Notice.unregistered) =
    s.sites.map watchOf
  numbered : ∀ name ∈ sent.flatMap Notice.registered, ∃ n < s.nextId, name = registrationName n
  once : (sent.flatMap Notice.registered).Nodup
  endedOnce : (sent.flatMap Notice.unregistered).Nodup
  begun : ∀ before n later, sent = before ++ n :: later →
    n.unregistered ⊆ before.flatMap Notice.registered

theorem inStep_initialised (params : Initialization) :
    (({} : Session).initialised params).InStep [] := by
  refine ⟨rfl, by simp, .nil, .nil, fun before n later h => ?_⟩
  simp at h

namespace InStep

/-- The names that are registered and not ended are those of the live sites. -/
theorem names_eq (h : s.InStep sent) :
    (sent.flatMap Notice.registered).filter (· ∉ sent.flatMap Notice.unregistered) =
      s.sites.map nameOf := by
  have hnames := congrArg (List.map (·.1)) h.live
  rw [List.map_map] at hnames
  rw [flatMap_registered, List.filter_map]
  exact hnames

theorem names_subset (h : s.InStep sent) : s.sites.map nameOf ⊆ sent.flatMap Notice.registered := by
  rw [← h.names_eq]
  exact List.filter_sublist.subset

theorem mem_of_ended (h : s.InStep sent) {name : String}
    (hname : name ∈ sent.flatMap Notice.unregistered) : name ∈ sent.flatMap Notice.registered := by
  obtain ⟨n, hn, hname⟩ := List.mem_flatMap.mp hname
  obtain ⟨before, later, heq⟩ := List.append_of_mem hn
  rw [heq, List.flatMap_append]
  exact List.mem_append_left _ (h.begun before n later heq hname)

/-- A name of a live site has not been ended. -/
theorem not_mem_ended (h : s.InStep sent) {name : String} (hname : name ∈ s.sites.map nameOf) :
    name ∉ sent.flatMap Notice.unregistered := by
  rw [← h.names_eq] at hname
  simpa using List.of_mem_filter hname

/-- A number that is not given yet names nothing that was registered. -/
theorem not_mem_registered (h : s.InStep sent) {x : Site} (hx : s.nextId ≤ x.id) :
    nameOf x ∉ sent.flatMap Notice.registered := by
  intro hold
  obtain ⟨n, hn, heq⟩ := h.numbered _ hold
  have := registrationName_inj.mp heq
  omega

end InStep

/-- Of what is asked for all sites that for some is taken off, and that for the others is left. -/
theorem filter_watchOf (ho : s.Orderly) (p : Site → Bool) :
    (s.sites.map watchOf).filter (·.1 ∉ (s.sites.filter p).map nameOf) =
      (s.sites.filter (!p ·)).map watchOf := by
  rw [List.filter_map]
  refine congrArg _ (List.filter_congr fun x hx => ?_)
  have hmem : nameOf x ∈ (s.sites.filter p).map nameOf ↔ p x = true := by
    rw [nameOf, mem_map_nameOf]
    constructor
    · rintro ⟨y, hy, hid⟩
      obtain rfl := ho.eq_of_id (List.mem_of_mem_filter hy) hx hid
      exact List.of_mem_filter hy
    · exact fun hp => ⟨x, List.mem_filter.mpr ⟨hx, hp⟩, rfl⟩
  show decide (nameOf x ∉ (s.sites.filter p).map nameOf) = !p x
  rw [Bool.eq_iff_iff, decide_eq_true_iff, hmem, Bool.not_eq_true']
  exact Bool.not_eq_true _ ▸ Iff.rfl

/-- What comes is not ended, and of what was asked for that which goes is taken off. -/
theorem filter_not_ended {asked come : List (String × List String)} {ended gone : List String}
    (hcome : ∀ r ∈ come, r.1 ∉ ended ∧ r.1 ∉ gone) :
    (asked ++ come).filter (·.1 ∉ ended ++ gone) =
      (asked.filter (·.1 ∉ ended)).filter (·.1 ∉ gone) ++ come := by
  rw [List.filter_append, List.filter_filter]
  refine congrArg₂ _ (List.filter_congr fun r _ => ?_) (List.filter_eq_self.mpr fun r hr => ?_)
  · rw [Bool.eq_iff_iff, Bool.and_eq_true, decide_eq_true_iff, decide_eq_true_iff, decide_eq_true_iff,
      List.mem_append, not_or, and_comm]
  · rw [decide_eq_true_iff, List.mem_append, not_or]
    exact hcome r hr

theorem nodup_map_nameOf {sites : List Site} (h : (sites.map (·.id)).Nodup) : (sites.map nameOf).Nodup := by
  refine List.pairwise_map.mpr ((List.pairwise_map.mp h).imp fun hne heq => hne ?_)
  exact registrationName_inj.mp heq

/-- What is sent next ends only what was registered before. -/
theorem InStep.begun_append (h : s.InStep sent) {more : List Notice}
    (hmore : more.flatMap Notice.unregistered ⊆ sent.flatMap Notice.registered)
    {before later : List Notice} {n : Notice} (heq : sent ++ more = before ++ n :: later) :
    n.unregistered ⊆ before.flatMap Notice.registered := by
  rcases List.append_eq_append_iff.mp heq with ⟨mid, rfl, hmid⟩ | ⟨mid, hmid, hrest⟩
  · have hn : n.unregistered ⊆ sent.flatMap Notice.registered := by
      refine fun name hname => hmore ?_
      rw [hmid]
      exact List.mem_flatMap.mpr ⟨n, by simp, hname⟩
    rw [List.flatMap_append]
    exact fun name hname => List.mem_append_left _ (hn hname)
  · cases mid with
    | nil =>
      rw [List.append_nil] at hmid
      have hn : n.unregistered ⊆ sent.flatMap Notice.registered := by
        refine fun name hname => hmore ?_
        rw [List.nil_append] at hrest
        rw [← hrest]
        exact List.mem_flatMap.mpr ⟨n, List.mem_cons_self, hname⟩
      rwa [hmid] at hn
    | cons m mid =>
      rw [List.cons_append, List.cons.injEq] at hrest
      obtain ⟨rfl, _⟩ := hrest
      exact h.begun before n mid hmid

/-- Where every site is kept nothing is told. -/
theorem InStep.kept (h : s.InStep sent) {more : List Notice} (told : Told more [] [])
    (hwatch : t.sites.map watchOf = s.sites.map watchOf) (nextId : t.nextId = s.nextId) :
    t.InStep (sent ++ more) := by
  have hasked : (sent ++ more).flatMap Notice.watching = sent.flatMap Notice.watching := by
    rw [List.flatMap_append, told.1, List.append_nil]
  have hended : (sent ++ more).flatMap Notice.unregistered = sent.flatMap Notice.unregistered := by
    rw [List.flatMap_append, told.2, List.append_nil]
  have hnames : (sent ++ more).flatMap Notice.registered = sent.flatMap Notice.registered := by
    rw [flatMap_registered, flatMap_registered, hasked]
  refine ⟨?_, ?_, hnames ▸ h.once, hended ▸ h.endedOnce, fun before n later heq => ?_⟩
  · rw [hasked, hended, hwatch]
    exact h.live
  · rw [hnames, nextId]
    exact h.numbered
  · refine h.begun_append ?_ heq
    rw [told.2]
    exact List.nil_subset _

/-- Where sites go and come, the client is told of both. -/
theorem InStep.turned (h : s.InStep sent) (ho : s.Orderly) {more : List Notice} {p : Site → Bool}
    {added : List Site} (told : Told more (added.map watchOf) ((s.sites.filter p).map nameOf))
    (ids : added.map (·.id) = List.range' s.nextId added.length)
    (sites : t.sites = s.sites.filter (!p ·) ++ added) (nextId : t.nextId = s.nextId + added.length) :
    t.InStep (sent ++ more) := by
  have hid : ∀ x ∈ added, s.nextId ≤ x.id ∧ x.id < t.nextId := by
    intro x hx
    have hmem := List.mem_map_of_mem (f := Site.id) hx
    rwa [ids, List.mem_range'_1, ← nextId] at hmem
  have hfresh : ∀ x ∈ added, nameOf x ∉ sent.flatMap Notice.registered := fun x hx =>
    h.not_mem_registered (hid x hx).1
  have hgone : (s.sites.filter p).map nameOf ⊆ s.sites.map nameOf :=
    List.map_subset _ List.filter_sublist.subset
  have hnames : more.flatMap Notice.registered = added.map nameOf := by
    rw [flatMap_registered, told.1, List.map_map]
    rfl
  constructor
  case live =>
    have hcome : ∀ r ∈ added.map watchOf, r.1 ∉ sent.flatMap Notice.unregistered ∧
        r.1 ∉ (s.sites.filter p).map nameOf := by
      intro r hr
      obtain ⟨x, hx, rfl⟩ := List.mem_map.mp hr
      exact ⟨fun hended => hfresh x hx (h.mem_of_ended hended),
        fun hgo => hfresh x hx (h.names_subset (hgone hgo))⟩
    rw [List.flatMap_append, List.flatMap_append, told.1, told.2, filter_not_ended hcome, h.live,
      filter_watchOf ho, sites, List.map_append]
  case numbered =>
    intro name hname
    rw [List.flatMap_append, hnames] at hname
    rcases List.mem_append.mp hname with hold | hnew
    · obtain ⟨n, hn, rfl⟩ := h.numbered name hold
      exact ⟨n, by omega, rfl⟩
    · obtain ⟨x, hx, rfl⟩ := List.mem_map.mp hnew
      exact ⟨x.id, (hid x hx).2, rfl⟩
  case once =>
    rw [List.flatMap_append, hnames]
    refine List.nodup_append.mpr ⟨h.once, nodup_map_nameOf (ids ▸ List.nodup_range'), ?_⟩
    rintro a ha b hb rfl
    obtain ⟨x, hx, rfl⟩ := List.mem_map.mp hb
    exact hfresh x hx ha
  case endedOnce =>
    rw [List.flatMap_append, told.2]
    refine List.nodup_append.mpr ⟨h.endedOnce, nodup_map_nameOf ?_, ?_⟩
    · exact List.pairwise_map.mpr ((ho.apart.filter _).imp fun hxy => hxy.1)
    · rintro a ha b hb rfl
      exact h.not_mem_ended (hgone hb) ha
  case begun =>
    intro before n later heq
    refine h.begun_append ?_ heq
    rw [told.2]
    exact fun name hname => h.names_subset (hgone hname)

/-- **A step keeps in step** what the client has been told. -/
theorem InStep.step (h : s.InStep sent) (ho : s.Orderly) (hdyn : s.dynamicWatchers = true)
    {look : Option Lookup} {more : List Notice} (hstep : Step s tree look t more) :
    t.InStep (sent ++ more) := by
  cases hstep with
  | kept f keeps sites folders nextId phase dynamic told =>
    refine h.kept told ?_ nextId
    rw [sites, List.map_map]
    exact List.map_congr_left fun x hx => (keeps x hx).watchOf
  | turned removed added idle arrivals sites folders nextId phase dynamic told =>
    rw [toldOf, toldOf, if_pos hdyn, if_pos hdyn] at told
    exact h.turned ho told arrivals.ids sites nextId

theorem Running.inStep {looks : List Lookup} (h : Running s sent looks)
    (hdyn : s.dynamicWatchers = true) : s.InStep sent := by
  induction h with
  | start params => exact inStep_initialised params
  | step prior tree work ih =>
    have hstep := step_handle prior.orderly tree work
    rw [hstep.dynamic_eq] at hdyn
    exact (ih hdyn).step prior.orderly hdyn hstep

/-- A change of the folders ends the sites of the removed folders and no others; what it brings are
sites with numbers that are not given yet. -/
theorem sites_foldersChanged (tree : FileTree) (s : Session) (removed added : List Path) :
    ∃ come, (foldersChanged tree s removed added).1.sites =
        s.sites.filter (fun x => !removed.any (x.root.same ·)) ++ come ∧
      ∀ x ∈ come, s.nextId ≤ x.id := by
  obtain ⟨w, hs, _⟩ := addSites_spec tree (s.turned removed added) added
  refine ⟨found tree (s.turned removed added) added, ?_, fun x hx => ?_⟩
  · rw [foldersChanged_eq, hs]
    rfl
  · exact ((arrivals_found tree (s.turned removed added) added).id_mem hx).1

/-- **Sites, folders and registrations stay in step** in a running session that registers its watchers,
after any calls.

The names that have been registered and not been ended are those of the live sites, in their order; none
is registered twice, ended twice, or ended before it was registered.  The root of every live site is one
of the folders.  And when a message changes the folders, the sites of the removed folders go, the others
stay as they are and in their order, and what comes is registered under names of its own. -/
theorem watchers_in_step (calls : List Call) (hrun : (after {} calls).phase = .running)
    (hdyn : (after {} calls).dynamicWatchers = true) :
    let s := after {} calls
    let sent := sentBy {} calls
    let registered := sent.flatMap Notice.registered
    let ended := sent.flatMap Notice.unregistered
    registered.filter (· ∉ ended) = s.sites.map (fun x => registrationName x.id) ∧
    registered.Nodup ∧ ended.Nodup ∧
    (∀ before n later, sent = before ++ n :: later →
      n.unregistered ⊆ before.flatMap Notice.registered) ∧
    (∀ x ∈ s.sites, x.root ∈ s.folders) ∧
    ∀ c removed added, s.message? c = some (.didChangeWorkspaceFolders removed added) →
      ∃ come, (s.outcome c).session.sites =
          s.sites.filter (fun x => !(pathsOf removed).any (x.root.same ·)) ++ come ∧
        ∀ x ∈ come, registrationName x.id ∉ registered := by
  have hr := running_of_phase calls hrun
  have h := hr.inStep hdyn
  refine ⟨h.names_eq, h.once, h.endedOnce, h.begun, hr.orderly.rooted, fun c removed added hm => ?_⟩
  have hwork : (Message.didChangeWorkspaceFolders removed added).IsWork := by
    simp [Message.IsWork, Message.method]
  rw [(outcome_of_isWork hm hwork).1]
  obtain ⟨come, hsites, hids⟩ :=
    sites_foldersChanged c.tree (after {} calls) (pathsOf removed) (pathsOf added)
  exact ⟨come, hsites, fun x hx => h.not_mem_registered (hids x hx)⟩

/-- One folder, which is a site. -/
def oneSite : FileTree :=
  ⟨[(["site"], .directory),
    (["site", "composer.json"],
      .file "\x7b\"require\":\x7b\"drupal/core-recommended\":\"^10\"\x7d\x7d".toUTF8)]⟩

/-- Some folders, as a client names them. -/
def foldersJson (uris : List String) : Json :=
  .array (uris.map fun u => .mkObject [("uri", .string u), ("name", .string "site")])

/-- The parameters of a client that has its watchers registered. -/
def watchingParams (uris : List String) : Json :=
  .mkObject
    [("capabilities", .mkObject
        [("workspace", .mkObject
            [("didChangeWatchedFiles", .mkObject [("dynamicRegistration", .bool true)])])]),
     ("workspaceFolders", foldersJson uris)]

/-- A change of the folders, as a client sends it. -/
def foldersChange (tree : FileTree) (removed added : List String) : Call :=
  ⟨tree, "workspace/didChangeWorkspaceFolders",
    some (.mkObject
      [("event", .mkObject [("removed", foldersJson removed), ("added", foldersJson added)])])⟩

/-- The folder is removed and added again by one message. -/
def turning : List Call :=
  [⟨oneSite, "initialize", some (watchingParams ["file:///site"])⟩,
   ⟨oneSite, "initialized", some (.object [])⟩,
   foldersChange oneSite ["file:///site"] ["file:///site/"]]

theorem watchers_in_step_turning :
    (after {} turning).phase = .running ∧ (after {} turning).dynamicWatchers = true ∧
      (sentBy {} turning).flatMap Notice.registered = ["drupal-watchers-1", "drupal-watchers-2"] ∧
      (sentBy {} turning).flatMap Notice.unregistered = ["drupal-watchers-1"] ∧
      (after {} turning).sites.map (fun x => registrationName x.id) = ["drupal-watchers-2"] := by
  obtain ⟨hrun, hdyn, hreg, hended⟩ : (after {} turning).phase = .running ∧
      (after {} turning).dynamicWatchers = true ∧
      (sentBy {} turning).flatMap Notice.registered = ["drupal-watchers-1", "drupal-watchers-2"] ∧
      (sentBy {} turning).flatMap Notice.unregistered = ["drupal-watchers-1"] := by
    decide +kernel
  refine ⟨hrun, hdyn, hreg, hended, ?_⟩
  rw [← (watchers_in_step turning hrun hdyn).1, hreg, hended]
  decide

end Session

end SiteAssist.Server
