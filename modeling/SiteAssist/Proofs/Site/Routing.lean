import SiteAssist.Proofs.Glob.Below
import SiteAssist.Proofs.Site.Run

/-!
# Where events go

An event names a path.  What it changes in a site, in whatever state, is no more than what the path
concerns (`Routed`): nothing for a path elsewhere, the version for the lock file, and for all other paths
the entries of that path in the caches that watch it.

* `routed_onEvent` says so, and that **whatever changes the site is of the files that matter**: one of its
  patterns stands for what the path is below the root (`Watched`).
* `standsFor_join`: the globs that are made of a root and these patterns **stand for such a path**, if the
  root reads as itself.
-/

namespace SiteAssist

open SiteAssist.Path (same_iff)

/-! ## One cache -/

namespace FileCache

variable {α : Type}

/-- The entries of all paths but one, in their order. -/
def others (c : FileCache α) (p : Path) : List (Path × List α) :=
  c.snapshot.entries.filter fun e => !e.1.same p

/-- What a cache makes of an event for a path: it is applied if the path is watched, and of the entries
of other paths nothing is changed. -/
structure Takes (root : Path) (tree : FileTree) (p : Path) (event : FileEvent) (c d : FileCache α) :
    Prop where
  watched : c.watches root p = true → d = (c.apply tree p event).1
  unwatched : c.watches root p = false → d = c
  others : d.others p = c.others p
  kept : d = { c with snapshot := d.snapshot }

theorem refresh_others (c : FileCache α) (tree : FileTree) (p : Path) :
    (c.refresh tree p).1.others p = c.others p ∧
      (c.refresh tree p).1 = { c with snapshot := (c.refresh tree p).1.snapshot } := by
  -- a single file is read without the root, so any root will do
  have h := effect_refresh c tree p p
  generalize (c.refresh tree p).1 = d at h ⊢
  generalize (c.refresh tree p).2 = out at h
  cases h with
  | @replaced _ q items old l r _ he hs =>
    refine ⟨?_, rfl⟩
    simp [others, Snapshot.ofEntries, he, hs]
  | added =>
    refine ⟨?_, rfl⟩
    simp [others, Snapshot.ofEntries, same_iff]
  | unreadable | refreshBroken => exact ⟨rfl, rfl⟩

theorem remove_others (c : FileCache α) (p : Path) :
    (c.remove p).others p = c.others p ∧
      c.remove p = { c with snapshot := (c.remove p).snapshot } := by
  rw [remove]
  split
  · exact ⟨rfl, rfl⟩
  · exact ⟨by simp [others, Snapshot.ofEntries], rfl⟩

theorem takes_told (c : FileCache α) (root : Path) (tree : FileTree) (p : Path) (event : FileEvent) :
    Takes root tree p event c (c.told root tree p event) := by
  have happly : (c.apply tree p event).1.others p = c.others p ∧
      (c.apply tree p event).1 = { c with snapshot := (c.apply tree p event).1.snapshot } := by
    cases event with
    | created | changed => exact c.refresh_others tree p
    | deleted => exact c.remove_others p
  rw [told]
  cases hw : c.watches root p with
  | true => exact ⟨fun _ => rfl, fun h => by simp [hw] at h, happly.1, happly.2⟩
  | false => exact ⟨fun h => by simp [hw] at h, fun _ => rfl, rfl, rfl⟩

end FileCache

theorem FilePattern.source_of_parse {source : String} {pattern : FilePattern}
    (h : FilePattern.parse source = .ok pattern) : pattern.source = source := by
  rw [parse, map_eq_ok_iff] at h
  obtain ⟨alternatives, -, rfl⟩ := h
  rfl

/-- The pattern of a text keeps the text, even if it is none. -/
@[simp] theorem Offer.source_patternOf (source : String) : (patternOf source).source = source := by
  rw [patternOf]
  split
  · exact FilePattern.source_of_parse ‹_›
  · rfl

/-- A pattern of a text that accepts anything is what the text is read as. -/
theorem Offer.parse_of_accepts {source : String} {root p : Path}
    (h : (patternOf source).accepts root p = true) :
    FilePattern.parse (patternOf source).source = .ok (patternOf source) := by
  rw [source_patternOf]
  rw [patternOf] at h ⊢
  cases hp : FilePattern.parse source with
  | ok pattern => rfl
  | error e =>
    -- what is no pattern accepts nothing
    rw [hp, FilePattern.accepts] at h
    cases hrest : Path.relativeTo? root p <;> simp [hrest] at h

/-- What a pattern accepts below a root its text stands for. -/
theorem FilePattern.standsFor_of_accepts {source : String} {pattern : FilePattern} {root p : Path}
    (hparse : FilePattern.parse source = .ok pattern) (h : pattern.accepts root p = true) :
    ∃ rest, Path.relativeTo? root p = some rest ∧ Glob.StandsFor source.toList rest.toList := by
  rw [accepts] at h
  cases hrest : Path.relativeTo? root p with
  | none => simp [hrest] at h
  | some rest =>
    simp only [hrest, List.any_eq_true] at h
    obtain ⟨a, ha, hfits⟩ := h
    obtain ⟨hs, hreads⟩ := reads_of_parse hparse a ha
    exact ⟨rest, rfl, _, hs, _, hreads, (Glob.Pattern.fits_iff hreads.placed _).mp hfits⟩

/-! ## What is watched -/

namespace Site

/-- A path is, below the root, what one of the patterns whose files matter stands for. -/
def Watched (s : Site) (p : Path) : Prop :=
  ∃ source ∈ s.watchPatterns, ∃ rest, Path.relativeTo? s.root p = some rest ∧
    Glob.StandsFor source.toList rest.toList

theorem standsFor_lockFile : Glob.StandsFor lockFile.toList lockFile.toList := by decide +kernel

theorem watched_lockFile {s : Site} {p : Path} (h : p.same (s.root.join lockFile) = true) :
    s.Watched p :=
  ⟨lockFile, List.mem_append_right _ (List.mem_singleton_self _), lockFile,
    Path.relativeTo?_of_steps (steps_of_lockFile h), standsFor_lockFile⟩

theorem exists_patternOf_of_mem_fresh {x : String × FilePattern}
    (hx : x ∈ Caches.fresh.each fun c => c.pattern) : ∃ source, x.2 = Offer.patternOf source := by
  simp only [Caches.each, Caches.fresh, List.mem_cons, List.not_mem_nil, or_false] at hx
  simp only [Offer.Hooks.cache, Offer.Routes.cache, Offer.Services.cache, Offer.Globals.cache,
    Offer.Translations.cache, Offer.newCache] at hx
  rcases hx with rfl | rfl | rfl | rfl | rfl <;> dsimp only <;> exact ⟨_, rfl⟩

/-- What one cache of a site watches the client watches, whatever has happened to the site. -/
theorem watched_of_pattern {id : Nat} {root p : Path} {calls : List Call} {x : String × FilePattern}
    (hx : x ∈ ((new id root).run calls).patterns) (hp : x.2.accepts root p = true) :
    ((new id root).run calls).Watched p := by
  have hparse : FilePattern.parse x.2.source = .ok x.2 := by
    rw [run_patterns] at hx
    obtain ⟨source, hsource⟩ := exists_patternOf_of_mem_fresh hx
    rw [hsource] at hp ⊢
    exact Offer.parse_of_accepts hp
  refine ⟨x.2.source, ?_, ?_⟩
  · rw [watchPatterns_eq]
    exact List.mem_append_left _ (List.mem_map.mpr ⟨x, hx, rfl⟩)
  · rw [run_root]
    exact FilePattern.standsFor_of_accepts hparse hp

/-- The patterns of the files that matter to a site. -/
def sources : List String :=
  ["web/\x7bcore,core/modules/*,modules/contrib/*,modules/custom/*\x7d/*.\x7bapi.php,module,theme\x7d",
   "web/\x7bcore/modules,modules/contrib,modules/custom\x7d/*/*.routing.yml",
   "web/\x7bcore,core/modules/*,modules/contrib/*,modules/custom/*\x7d/*.services.yml",
   "web/core/globals.api.php", "web/modules/custom/**/*.po", "composer.lock"]

theorem watchPatterns_run (id : Nat) (root : Path) (calls : List Call) :
    ((new id root).run calls).watchPatterns = sources := by
  rw [watchPatterns_eq, run_patterns]
  simp only [patterns, new, Caches.each, Caches.fresh, Offer.Hooks.cache, Offer.Routes.cache,
    Offer.Services.cache, Offer.Globals.cache, Offer.Translations.cache, Offer.newCache,
    List.map_cons, List.map_nil, Offer.source_patternOf]
  rfl

/-- A pattern that is joined to a root **stands for what it stands for, below the root**, if the root reads as
itself. -/
theorem standsFor_join {root : Path} {source rest : String} (hroot : root.isAbsolute = true)
    (hself : Glob.SelfReading root.text.toList) (hsource : source.toList.head? ≠ some '/')
    (hrest : rest.toList.head? ≠ some '/') (h : Glob.StandsFor source.toList rest.toList) :
    Glob.StandsFor (root.join source).text.toList (root.join rest).text.toList := by
  rw [Path.toList_join_of_head? hroot hsource, Path.toList_join_of_head? hroot hrest]
  split
  · rename_i hlast
    obtain ⟨lead, hlead⟩ := List.getLast?_eq_some_iff.mp hlast
    rw [hlead] at hself ⊢
    simpa using Glob.standsFor_below hself.of_prefix h
  · simpa using Glob.standsFor_below hself h

/-! ## One site -/

/-- What an event for a path makes of a site. -/
structure Routed (tree : FileTree) (p : Path) (event : FileEvent) (s t : Site) : Prop where
  outside : p.under s.root = false → t = s
  locked : p.same (s.root.join lockFile) = true → t = { s with version := none }
  caches : p.same (s.root.join lockFile) = false →
    t = { s with caches := t.caches } ∧
      Caches.Related (FileCache.Takes s.root tree p event) s.caches t.caches
  watched : t ≠ s → s.Watched p

/-- **Events go where they belong**, in whatever state a site is. -/
theorem routed_onEvent (id : Nat) (root : Path) (calls : List Call) (tree : FileTree) (p : Path)
    (event : FileEvent) :
    Routed tree p event ((new id root).run calls) (((new id root).run calls).onEvent tree p event) := by
  have hroot : ((new id root).run calls).root = root := run_root _ calls
  have hpattern {x} (hx : x ∈ ((new id root).run calls).patterns) (h : x.2.accepts root p = true) :=
    watched_of_pattern hx h
  generalize (new id root).run calls = s at hroot hpattern ⊢
  refine ⟨fun h => onEvent_of_outside h tree event, fun h => onEvent_of_lockFile h tree event,
    fun h => ?_, fun hne => ?_⟩
  · rw [onEvent_of_ne h]
    exact ⟨rfl, Caches.related_map (fun c => c.takes_told s.root tree p event) s.caches⟩
  · cases hlock : p.same (s.root.join lockFile) with
    | true => exact watched_lockFile hlock
    | false =>
      -- if the client did not watch the path, no cache would, and none would be changed
      by_contra hnone
      rw [onEvent_of_ne hlock] at hne
      refine hne (congrArg (fun caches => { s with caches }) ?_)
      refine map_told_of_unwatched (fun x hx => ?_) tree event
      by_contra h
      rw [Bool.not_eq_false, hroot] at h
      exact hnone (hpattern hx h)

end Site

end SiteAssist
