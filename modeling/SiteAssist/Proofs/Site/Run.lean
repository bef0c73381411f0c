import SiteAssist.Proofs.Path.Child
import SiteAssist.Proofs.Site.Upkeep

/-!
# Runs of a site

A site is found in a folder, and from then on it is filled, told of events and queried, in any order,
while the files change as they like.  A run is a list of calls, each with the files as they are at the
time.

Its root and the patterns of its caches **never change** (`run_root`, `run_patterns`).
-/

namespace SiteAssist

open SiteAssist.Path (IsFileName same_iff under_iff)

/-! ## Caches one by one -/

namespace Caches

/-- Caches that are related one by one. -/
structure Related (R : {α : Type} → FileCache α → FileCache α → Prop) (cs ds : Caches) : Prop where
  hooks : R cs.hooks ds.hooks
  routes : R cs.routes ds.routes
  services : R cs.services ds.services
  globals : R cs.globals ds.globals
  translations : R cs.translations ds.translations

theorem related_map {R : {α : Type} → FileCache α → FileCache α → Prop}
    {f : {α : Type} → FileCache α → FileCache α} (h : ∀ {α : Type} (c : FileCache α), R c (f c))
    (cs : Caches) : Related R cs (cs.map f) :=
  ⟨h cs.hooks, h cs.routes, h cs.services, h cs.globals, h cs.translations⟩

theorem eq_of_related {cs ds : Caches} (h : Related (fun c d => d = c) cs ds) : ds = cs := by
  obtain ⟨hooks, routes, services, globals, translations⟩ := h
  cases cs
  cases ds
  simp_all

/-- What a change leaves alone in each cache it leaves alone in all. -/
theorem each_map {β : Type} {f : {α : Type} → FileCache α → FileCache α}
    {g : {α : Type} → FileCache α → β} (h : ∀ {α : Type} (c : FileCache α), g (f c) = g c)
    (cs : Caches) : (cs.map f).each g = cs.each g := by
  simp only [each, map, h]

end Caches

namespace Site

/-! ## The lock file -/

theorem isFileName_lockFile : IsFileName lockFile := by decide +kernel

/-- The lock file lies right below the root, whatever the root. -/
theorem steps_of_lockFile {root p : Path} (h : p.same (root.join lockFile) = true) :
    p.steps = root.steps ++ [.name lockFile] := by
  rw [same_iff.mp h, Path.steps_join_name root isFileName_lockFile]

theorem under_of_lockFile {root p : Path} (h : p.same (root.join lockFile) = true) :
    p.under root = true := under_iff.mpr ⟨_, (steps_of_lockFile h).symm⟩

/-! ## Runs -/

/-- What is asked of a site, or told it. -/
inductive Operation where
  | populate
  | event (p : Path) (event : FileEvent)
  | resolve (item : Completion)
  | version
  | search (symbol : String)

/-- An operation, and the files as they are at the time. -/
structure Call where
  tree : FileTree
  op : Operation

/-- The site after one call. -/
def perform (s : Site) (c : Call) : Site :=
  match c.op with
  | .populate => s.populate c.tree
  | .event p event => s.onEvent c.tree p event
  | .resolve item => (s.resolve c.tree item).2
  | .version => (s.coreVersion c.tree).2
  | .search symbol => (s.apiSearchUrl c.tree symbol).2

/-- The site after some calls. -/
def run (s : Site) (calls : List Call) : Site := calls.foldl perform s

theorem run_concat (s : Site) (calls : List Call) (c : Call) :
    s.run (calls ++ [c]) = (s.run calls).perform c := by
  rw [run, List.foldl_append]
  rfl

/-- The patterns of the caches, each under its name. -/
def patterns (s : Site) : List (String × FilePattern) := s.caches.each fun c => c.pattern

/-- An event for a path that no cache watches changes none. -/
theorem map_told_of_unwatched {s : Site} {p : Path}
    (h : ∀ x ∈ s.patterns, x.2.accepts s.root p = false) (tree : FileTree) (event : FileEvent) :
    (s.caches.map fun c => c.told s.root tree p event) = s.caches := by
  have hsame {α : Type} (c : FileCache α) (hc : c.watches s.root p = false) :
      c.told s.root tree p event = c := by
    rw [FileCache.told, hc, if_neg Bool.false_ne_true]
  simp only [patterns, Caches.each, List.forall_mem_cons] at h
  obtain ⟨hhooks, hroutes, hservices, hglobals, htranslations, -⟩ := h
  exact Caches.eq_of_related ⟨hsame _ hhooks, hsame _ hroutes, hsame _ hservices, hsame _ hglobals,
    hsame _ htranslations⟩

theorem onEvent_of_outside {s : Site} {p : Path} (h : p.under s.root = false) (tree : FileTree)
    (event : FileEvent) : s.onEvent tree p event = s := by
  rw [onEvent, hasFile, h, if_pos Bool.false_ne_true]

/-- An event for the lock file makes the version forgotten. -/
theorem onEvent_of_lockFile {s : Site} {p : Path} (h : p.same (s.root.join lockFile) = true)
    (tree : FileTree) (event : FileEvent) : s.onEvent tree p event = { s with version := none } := by
  rw [onEvent, hasFile, under_of_lockFile h, if_neg (not_not.mpr rfl), if_pos h]

/-- Of any other event each cache is told, as none watches a path elsewhere. -/
theorem onEvent_of_ne {s : Site} {p : Path} (h : p.same (s.root.join lockFile) = false)
    (tree : FileTree) (event : FileEvent) :
    s.onEvent tree p event =
      { s with caches := s.caches.map fun c => c.told s.root tree p event } := by
  cases hunder : p.under s.root with
  | true =>
    rw [onEvent, hasFile, hunder, if_neg (not_not.mpr rfl), h, if_neg Bool.false_ne_true]
    rfl
  | false =>
    have hnone : ∀ x ∈ s.patterns, x.2.accepts s.root p = false := by
      intro x _
      rw [FilePattern.accepts, Path.relativeTo?, hunder, if_pos Bool.false_ne_true]
    rw [onEvent_of_outside hunder, map_told_of_unwatched hnone]

theorem coreVersion_cases (s : Site) (tree : FileTree) :
    (∃ v, s.version = some v ∧ s.coreVersion tree = (v, s)) ∨
      s.version = none ∧ ∃ v, v = (Composer.lockedVersion? tree s.root).getD defaultVersion ∧
        s.coreVersion tree = (v, { s with version := some v }) := by
  rw [coreVersion]
  cases hv : s.version with
  | none => exact Or.inr ⟨rfl, _, rfl, rfl⟩
  | some v => exact Or.inl ⟨v, rfl, rfl⟩

theorem perform_fixed (s : Site) (c : Call) :
    (s.perform c).root = s.root ∧ (s.perform c).patterns = s.patterns := by
  have hversion : (s.coreVersion c.tree).2.root = s.root ∧
      (s.coreVersion c.tree).2.patterns = s.patterns := by
    rcases s.coreVersion_cases c.tree with ⟨v, _, h⟩ | ⟨_, v, _, h⟩ <;> rw [h] <;> exact ⟨rfl, rfl⟩
  rw [perform]
  cases c.op with
  | populate =>
    exact ⟨rfl, Caches.each_map (f := fun x => (x.populate c.tree s.root).1)
      (fun x => (x.populate_fixed c.tree s.root).1) s.caches⟩
  | event p event =>
    cases h : p.same (s.root.join lockFile) with
    | true =>
      dsimp only
      rw [onEvent_of_lockFile h]
      exact ⟨rfl, rfl⟩
    | false =>
      dsimp only
      rw [onEvent_of_ne h]
      exact ⟨rfl, Caches.each_map (f := fun x => x.told s.root c.tree p event)
        (fun x => (x.told_fixed s.root c.tree p event).1) s.caches⟩
  | resolve item => exact ⟨rfl, rfl⟩
  | version => exact hversion
  | search symbol => exact hversion

theorem run_root (s : Site) (calls : List Call) : (s.run calls).root = s.root := by
  induction calls generalizing s with
  | nil => rfl
  | cons c cs ih => exact (ih (s.perform c)).trans (s.perform_fixed c).1

theorem run_patterns (s : Site) (calls : List Call) : (s.run calls).patterns = s.patterns := by
  induction calls generalizing s with
  | nil => rfl
  | cons c cs ih => exact (ih (s.perform c)).trans (s.perform_fixed c).2

theorem watchPatterns_eq (s : Site) :
    s.watchPatterns = s.patterns.map (fun x => x.2.source) ++ [lockFile] := rfl

theorem watchPatterns_perform (s : Site) (c : Call) : (s.perform c).watchPatterns = s.watchPatterns := by
  rw [watchPatterns_eq, watchPatterns_eq, (s.perform_fixed c).2]

end Site

end SiteAssist
