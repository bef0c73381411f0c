import Mathlib.Data.List.Induction
import SiteAssist.Proofs.Composer.Locked
import SiteAssist.Proofs.Site.Run

/-!
# The version of the core

A site reads the version of its core from the lock file when it is first asked for it, and keeps it, the
default too, until it is told of an event for the lock file.  So the version is **that of the lock file as
of some earlier query** (`AsOf`): the first since the last event for the lock file, or since the site was
found.  What else happens to the site, or to the files without an event, does not count.

* `Core`: the version by the files of a tree, said by how a lock file is written (`Composer.Locks`).
* `Memo`: what the site keeps says of the calls before, whether it has been asked and what it then found.
* `version_as_of`: each query answers what the lock file said as of that first query.
-/

namespace SiteAssist.Site

/-! ## What a lock file says -/

/-- The version of the core by the files of a tree: the one of the lock file, or the default. -/
def Core (root : Path) (tree : FileTree) (n : Nat) : Prop :=
  (∃ text, tree.readText? (root.join lockFile) = some text ∧ Composer.Locks text n) ∨
    (∀ text m, tree.readText? (root.join lockFile) = some text → ¬Composer.Locks text m) ∧ n = 10

theorem core_iff {root : Path} {tree : FileTree} {n : Nat} :
    Core root tree n ↔ (Composer.lockedVersion? tree root).getD defaultVersion = n := by
  have hlocked (m : Nat) : Composer.lockedVersion? tree root = some m ↔
      ∃ text, tree.readText? (root.join lockFile) = some text ∧ Composer.Locks text m := by
    rw [Composer.lockedVersion?, Option.bind_eq_some_iff]
    exact exists_congr fun text => and_congr_right fun _ => Composer.coreVersion?_eq_some_iff
  rw [Core, ← hlocked]
  cases hv : Composer.lockedVersion? tree root with
  | some v =>
    obtain ⟨text, hread, hlocks⟩ := (hlocked v).mp hv
    refine ⟨fun h => ?_, fun h => Or.inl (congrArg some h)⟩
    rcases h with h | ⟨hnone, -⟩
    · exact Option.some.inj h
    · exact absurd hlocks (hnone text v hread)
  | none =>
    refine ⟨fun h => ?_, fun h => Or.inr ⟨fun text m hread hlocks => ?_, h.symm⟩⟩
    · rcases h with h | ⟨-, h⟩
      · cases h
      · exact h.symm
    · have := (hlocked m).mpr ⟨text, hread, hlocks⟩
      simp [hv] at this

/-! ## Queries and events of a run -/

/-- A call that asks for the version. -/
def Call.isQuery (c : Call) : Bool :=
  match c.op with
  | .version | .search _ => true
  | _ => false

/-- A call that tells of an event for the lock file. -/
def Call.relocks (root : Path) (c : Call) : Bool :=
  match c.op with
  | .event p _ => p.same (root.join lockFile)
  | _ => false

/-- Calls that are the start of a run or end with an event for the lock file. -/
def Relocked (root : Path) (calls : List Call) : Prop :=
  calls = [] ∨ ∃ earlier c, calls = earlier ++ [c] ∧ c.relocks root = true

/-- Since the last event for the lock file nobody has asked. -/
def Unasked (root : Path) (calls : List Call) : Prop :=
  ∃ before quiet, calls = before ++ quiet ∧ Relocked root before ∧
    ∀ c ∈ quiet, c.isQuery = false ∧ c.relocks root = false

/-- Since the last event for the lock file there has been a query, and this is the first. -/
def AsOf (root : Path) (calls : List Call) (first : Call) : Prop :=
  ∃ before quiet later, calls = before ++ (quiet ++ first :: later) ∧ Relocked root before ∧
    (∀ c ∈ quiet, c.isQuery = false) ∧ first.isQuery = true ∧
    ∀ c ∈ quiet ++ first :: later, c.relocks root = false

section Runs

variable {root : Path} {calls : List Call} {c first : Call}

theorem relocks_of_isQuery (h : c.isQuery = true) : c.relocks root = false := by
  obtain ⟨tree, op⟩ := c
  cases op <;> first | rfl | simp [Call.isQuery] at h

theorem unasked_nil : Unasked root [] := ⟨[], [], rfl, Or.inl rfl, by simp⟩

theorem unasked_of_relocks (h : c.relocks root = true) : Unasked root (calls ++ [c]) :=
  ⟨calls ++ [c], [], (List.append_nil _).symm, Or.inr ⟨calls, c, rfl, h⟩, by simp⟩

theorem Unasked.concat (h : Unasked root calls) (hquery : c.isQuery = false)
    (hlock : c.relocks root = false) : Unasked root (calls ++ [c]) := by
  obtain ⟨before, quiet, rfl, hbefore, hquiet⟩ := h
  refine ⟨before, quiet ++ [c], List.append_assoc .., hbefore, fun d hd => ?_⟩
  rcases List.mem_append.mp hd with hd | hd
  · exact hquiet d hd
  · rw [List.mem_singleton.mp hd]
    exact ⟨hquery, hlock⟩

theorem Unasked.asOf (h : Unasked root calls) (hquery : c.isQuery = true) :
    AsOf root (calls ++ [c]) c := by
  obtain ⟨before, quiet, rfl, hbefore, hquiet⟩ := h
  refine ⟨before, quiet, [], List.append_assoc .., hbefore, fun d hd => (hquiet d hd).1, hquery,
    fun d hd => ?_⟩
  rcases List.mem_append.mp hd with hd | hd
  · exact (hquiet d hd).2
  · rw [List.mem_singleton.mp hd]
    exact relocks_of_isQuery hquery

theorem AsOf.concat (h : AsOf root calls first) (hlock : c.relocks root = false) :
    AsOf root (calls ++ [c]) first := by
  obtain ⟨before, quiet, later, rfl, hbefore, hquiet, hfirst, hsince⟩ := h
  refine ⟨before, quiet, later ++ [c], by simp, hbefore, hquiet, hfirst, fun d hd => ?_⟩
  rw [← List.cons_append, ← List.append_assoc] at hd
  rcases List.mem_append.mp hd with hd | hd
  · exact hsince d hd
  · rw [List.mem_singleton.mp hd]
    exact hlock

end Runs

/-! ## What a site keeps -/

/-- What the kept version says of the calls so far. -/
inductive Memo (root : Path) (calls : List Call) : Option Nat → Prop
  | unasked (h : Unasked root calls) : Memo root calls none
  | asked {first : Call} {n : Nat} (h : AsOf root calls first) (core : Core root first.tree n) :
      Memo root calls (some n)

/-- A call neither for the version nor for the lock file leaves the version as it is. -/
theorem version_perform {s : Site} {c : Call} (hquery : c.isQuery = false)
    (hlock : c.relocks s.root = false) : (s.perform c).version = s.version := by
  obtain ⟨tree, op⟩ := c
  cases op with
  | populate | resolve => rfl
  | event p event => exact (congrArg version (onEvent_of_ne hlock tree event)).trans rfl
  | version | search => simp [Call.isQuery] at hquery

theorem version_perform_of_relocks {s : Site} {c : Call} (h : c.relocks s.root = true) :
    (s.perform c).version = none := by
  obtain ⟨tree, op⟩ := c
  cases op with
  | event p event => exact congrArg version (onEvent_of_lockFile h tree event)
  | populate | resolve | version | search => simp [Call.relocks] at h

theorem version_perform_of_isQuery {s : Site} {c : Call} (h : c.isQuery = true) :
    (s.perform c).version = some (s.coreVersion c.tree).1 := by
  have hversion : (s.coreVersion c.tree).2.version = some (s.coreVersion c.tree).1 := by
    rcases s.coreVersion_cases c.tree with ⟨v, hv, heq⟩ | ⟨_, v, _, heq⟩
    · rw [heq, hv]
    · rw [heq]
  obtain ⟨tree, op⟩ := c
  cases op with
  | version | search => exact hversion
  | populate | event | resolve => simp [Call.isQuery] at h

/-- One call keeps the version in step with the calls. -/
theorem Memo.perform {s : Site} {calls : List Call} (h : Memo s.root calls s.version) (c : Call) :
    Memo s.root (calls ++ [c]) (s.perform c).version := by
  cases hlock : c.relocks s.root with
  | true =>
    rw [version_perform_of_relocks hlock]
    exact .unasked (unasked_of_relocks hlock)
  | false =>
    cases hquery : c.isQuery with
    | false =>
      rw [version_perform hquery hlock]
      generalize s.version = version at h
      cases h with
      | unasked h => exact .unasked (h.concat hquery hlock)
      | asked h core => exact .asked (h.concat hlock) core
    | true =>
      rw [version_perform_of_isQuery hquery]
      rcases s.coreVersion_cases c.tree with ⟨v, hv, heq⟩ | ⟨hv, v, hcore, heq⟩ <;> rw [hv] at h <;>
        rw [heq]
      · cases h with
        | asked h core => exact .asked (h.concat hlock) core
      · cases h with
        | unasked h => exact .asked (h.asOf hquery) (core_iff.mpr hcore.symm)

theorem memo_run (id : Nat) (root : Path) (calls : List Call) :
    Memo root calls ((new id root).run calls).version := by
  induction calls using List.reverseRecOn with
  | nil => exact .unasked unasked_nil
  | append_singleton calls c ih =>
    rw [run_concat]
    have hroot : ((new id root).run calls).root = root := run_root _ calls
    generalize (new id root).run calls = s at hroot ih ⊢
    rw [← hroot] at ih ⊢
    exact ih.perform c

/-- **Each query answers what the lock file said as of the first query** since the last event for the lock
file, or since the site was found. -/
theorem version_as_of (id : Nat) (root : Path) (calls : List Call) (tree : FileTree) (symbol : String) :
    let s := (new id root).run calls
    ∃ first n, AsOf root (calls ++ [⟨tree, .version⟩]) first ∧ Core root first.tree n ∧
      (s.coreVersion tree).1 = n ∧
      (s.apiSearchUrl tree symbol).1 =
        "https://api.drupal.org/api/drupal/" ++ toString n ++ "/search/" ++ symbol := by
  have h := memo_run id root (calls ++ [⟨tree, .version⟩])
  rw [run_concat, version_perform_of_isQuery rfl] at h
  cases h with
  | asked h core => exact ⟨_, _, h, core, rfl, rfl⟩

/-- A lock file that holds the core at a version: among other members, behind another package, its name
written with an escape. -/
def lockText (version : String) : String :=
  "\x7b\"hash\": [\"\\ud83d\", -1e3, \x7b\x7d],\n \"packages\": [" ++
  "\x7b\"name\":\"twig\",\"version\":\"v3\"\x7d, " ++
  "\x7b\"version\": \"" ++ version ++ "\", \"name\": \"drupal\\/\\u0063ore\"\x7d]\x7d\n"

/-- A site with that lock file. -/
def lockedAt (version : String) : FileTree :=
  ⟨[(["site"], .directory), (["site", "composer.lock"], .file (lockText version).toUTF8)]⟩

/-- A lock file is replaced without an event, and the version stays; with the event the other one is taken.
-/
theorem version_as_of_relocked :
    let root : Path := ⟨"/site"⟩
    let asked : List Call := [⟨lockedAt "v11.2.3", .version⟩]
    let told : List Call := asked ++ [⟨lockedAt "9.5.0-beta", .event ⟨"/site/composer.lock"⟩ .changed⟩]
    let query : Call := ⟨lockedAt "9.5.0-beta", .version⟩
    Composer.Locks (lockText "v11.2.3") 11 ∧ Composer.Locks (lockText "9.5.0-beta") 9 ∧
      (∃ first, AsOf root (asked ++ [query]) first ∧ Core root first.tree 11 ∧
        (((new 0 root).run asked).apiSearchUrl query.tree "t").1 =
          "https://api.drupal.org/api/drupal/" ++ toString 11 ++ "/search/" ++ "t") ∧
      ∃ first, AsOf root (told ++ [query]) first ∧ Core root first.tree 9 ∧
        (((new 0 root).run told).apiSearchUrl query.tree "t").1 =
          "https://api.drupal.org/api/drupal/" ++ toString 9 ++ "/search/" ++ "t" := by
  intro root asked told query
  have hasked : (((new 0 root).run asked).coreVersion query.tree).1 = 11 := by decide +kernel
  have htold : (((new 0 root).run told).coreVersion query.tree).1 = 9 := by decide +kernel
  refine ⟨Composer.coreVersion?_eq_some_iff.mp (by decide +kernel),
    Composer.coreVersion?_eq_some_iff.mp (by decide +kernel), ?_, ?_⟩
  · obtain ⟨first, n, hfirst, hcore, hversion, hurl⟩ := version_as_of 0 root asked query.tree "t"
    obtain rfl : n = 11 := hversion.symm.trans hasked
    exact ⟨first, hfirst, hcore, hurl⟩
  · obtain ⟨first, n, hfirst, hcore, hversion, hurl⟩ := version_as_of 0 root told query.tree "t"
    obtain rfl : n = 9 := hversion.symm.trans htold
    exact ⟨first, hfirst, hcore, hurl⟩

end SiteAssist.Site
