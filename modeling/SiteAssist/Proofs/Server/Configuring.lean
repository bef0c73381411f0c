import SiteAssist.Proofs.Server.Run
import SiteAssist.Proofs.Settings.Written

/-!
# Settings that change during a session

The client sends settings at any time.  Those that cannot be read change nothing (`configured_refused`);
those that can be read take the place of all that were in force (`configured_taken`).

* `settings_taken`: **settings are read back however they are written, and are taken as a whole or not at
  all**.
-/

namespace SiteAssist.Server

namespace Session

variable {s : Session} {tree : FileTree} {payload : Json}

theorem configured_refused {e : Json.ShapeError} (h : Settings.ofJson payload = .error e) :
    s.configured tree payload = (s, []) := by
  rw [configured, h]

theorem configured_eq {set : Settings} (h : Settings.ofJson payload = .ok set) :
    s.configured tree payload = forEach (checkTools tree) { s with settings := set } s.sites := by
  rw [configured, h]

/-- Beside the settings, no more changes than **which tools have been warned of**. -/
theorem configured_taken {set : Settings} (h : Settings.ofJson payload = .ok set) :
    ∃ w, (s.configured tree payload).1 = { s with settings := set, warned := w } := by
  obtain ⟨w, hs, _⟩ := (warns_checkTools tree).forEach { s with settings := set } s.sites
  exact ⟨w, by rw [configured_eq h, hs]⟩

/-- **Settings are taken as a whole or not at all.**

Every way of writing settings is read back as these settings: with the keys in any order, with defaults
left out, with any other keys, bare or under `drupal`.  When a client sends settings that cannot be read,
the session stays as it is and nothing is sent.  When they can be read they are the ones in force, whatever
was in force before, and nothing else changes but which tools have been warned of. -/
theorem settings_taken :
    (∀ (set : Settings) (members : List (String × Json)), set.WrittenAs members →
      ("drupal" ∉ members.map Prod.fst → Settings.ofJson (.object members) = .ok set) ∧
      ∀ outer : List (String × Json), (outer.map Prod.fst).Nodup → ("drupal", .object members) ∈ outer →
        Settings.ofJson (.object outer) = .ok set) ∧
    ∀ (s : Session) (c : Call) (payload : Json), s.message? c = some (.didChangeConfiguration payload) →
      (∀ e, Settings.ofJson payload = .error e →
        (s.outcome c).session = s ∧ (s.outcome c).sent = []) ∧
      ∀ set, Settings.ofJson payload = .ok set →
        ∃ w, (s.outcome c).session = { s with settings := set, warned := w } := by
  refine ⟨fun set members h => ⟨Settings.ofJson_written h, fun outer => Settings.ofJson_wrapped h⟩,
    fun s c payload hm => ?_⟩
  have hwork : (Message.didChangeConfiguration payload).IsWork := by simp [Message.IsWork, Message.method]
  obtain ⟨hs, hsent⟩ := outcome_of_isWork hm hwork
  constructor
  · intro e he
    have hsame : s.configured c.tree payload = (s, []) := configured_refused he
    rw [hs, hsent]
    exact ⟨congrArg Prod.fst hsame, congrArg Prod.snd hsame⟩
  · intro set hset
    rw [hs]
    exact configured_taken hset

/-- Settings of two tools. -/
def twoTools : Settings :=
  { phpcs := { enabled := true, args := ["--standard=Drupal"] }, drush := { executablePath := "bin/drush" } }

/-- The members of `twoTools` out of order, with a default, with others left out, and with strange keys. -/
def twoToolsMembers : List (String × Json) :=
  [("drush", .object [("extra", .null), ("executablePath", .string "bin/drush")]), ("theme", .bool true),
   ("phpcs", .object
     [("args", .strings ["--standard=Drupal"]), ("executablePath", .string ""), ("enabled", .bool true)])]

/-- Settings whose last tool is misshapen. -/
def misshapenMembers : List (String × Json) :=
  [("drush", .object [("enabled", .string "yes")]),
   ("phpcs", .object [("enabled", .bool false)])]

/-- A change of the settings, as a client sends it. -/
def settingsChange (tree : FileTree) (payload : Json) : Call :=
  ⟨tree, "workspace/didChangeConfiguration", some (.object [("settings", payload)])⟩

/-- A session that runs, with one tool warned of. -/
def warnedOnce : Session := { phase := .running, warned := [.phpcs] }

theorem settings_taken_twoTools :
    twoTools.WrittenAs twoToolsMembers ∧ "drupal" ∉ twoToolsMembers.map Prod.fst ∧
      Settings.ofJson (.object twoToolsMembers) = .ok twoTools ∧
      Settings.ofJson (.object [("a", .null), ("drupal", .object twoToolsMembers)]) = .ok twoTools ∧
      (warnedOnce.message? (settingsChange ⟨[]⟩ (.object twoToolsMembers)) =
          some (.didChangeConfiguration (.object twoToolsMembers)) ∧
        ∃ w, (warnedOnce.outcome (settingsChange ⟨[]⟩ (.object twoToolsMembers))).session =
          { warnedOnce with settings := twoTools, warned := w }) ∧
      warnedOnce.message? (settingsChange ⟨[]⟩ (.object misshapenMembers)) =
          some (.didChangeConfiguration (.object misshapenMembers)) ∧
        (∃ e, Settings.ofJson (.object misshapenMembers) = .error e) ∧
        (warnedOnce.outcome (settingsChange ⟨[]⟩ (.object misshapenMembers))).session = warnedOnce ∧
        (warnedOnce.outcome (settingsChange ⟨[]⟩ (.object misshapenMembers))).sent = [] := by
  have hdrush : Settings.WritesTool twoTools.drush
      (.object [("extra", .null), ("executablePath", .string "bin/drush")]) :=
    ⟨_, rfl, by decide, Or.inr ⟨by decide, rfl⟩, Or.inl ⟨_, .tail _ (.head _), rfl⟩, Or.inr ⟨by decide, rfl⟩⟩
  have hphpcs : Settings.WritesTool twoTools.phpcs
      (.object [("args", .strings ["--standard=Drupal"]), ("executablePath", .string ""),
        ("enabled", .bool true)]) :=
    ⟨_, rfl, by decide, Or.inl ⟨_, .tail _ (.tail _ (.head _)), rfl⟩, Or.inl ⟨_, .tail _ (.head _), rfl⟩,
      Or.inl ⟨_, .head _, rfl⟩⟩
  have hwritten : twoTools.WrittenAs twoToolsMembers := by
    refine ⟨by decide, fun tool => ?_⟩
    cases tool with
    | phpcs => exact Or.inl ⟨_, .tail _ (.tail _ (.head _)), hphpcs⟩
    | phpcbf | phpstan => exact Or.inr ⟨by decide, rfl⟩
    | drush => exact Or.inl ⟨_, .head _, hdrush⟩
  have hbare : "drupal" ∉ twoToolsMembers.map Prod.fst := by decide
  have hgood : warnedOnce.message? (settingsChange ⟨[]⟩ (.object twoToolsMembers)) =
      some (.didChangeConfiguration (.object twoToolsMembers)) := by rfl
  have hbad : warnedOnce.message? (settingsChange ⟨[]⟩ (.object misshapenMembers)) =
      some (.didChangeConfiguration (.object misshapenMembers)) := by rfl
  have hrefused : Settings.ofJson (.object misshapenMembers) = .error (.wrongType (.string "yes") .boolean) := by
    rfl
  obtain ⟨hread, htaken⟩ := settings_taken
  obtain ⟨hown, hwrapped⟩ := hread twoTools twoToolsMembers hwritten
  exact ⟨hwritten, hbare, hown hbare, hwrapped _ (by decide) (.tail _ (.head _)),
    ⟨hgood, (htaken _ _ _ hgood).2 _ (hown hbare)⟩, hbad, ⟨_, hrefused⟩, (htaken _ _ _ hbad).1 _ hrefused⟩

end Session

end SiteAssist.Server
