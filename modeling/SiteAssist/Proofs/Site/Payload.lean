import SiteAssist.Site
import SiteAssist.Proofs.Cache.Effect

/-!
# Items with a payload

An item of the completion list may carry a payload, which comes back when the item is to be resolved.
Whatever files a site has read, the items that it keeps from them carry none: what an extractor never
gives, no operation of a cache puts into it (`FileCache.AllItems`).  So an item with a payload is one of
a template function or filter (`mem_templates_of_payload`).
-/

namespace SiteAssist

/-- A cache whose items all have a property, and will have it. -/
structure FileCache.AllItems {α : Type} (P : α → Prop) (c : FileCache α) : Prop where
  sound : c.Sound
  extracted : ∀ status p text items, c.extract status p text = .items items → ∀ x ∈ items, P x
  items : ∀ x ∈ c.items, P x

namespace FileCache

variable {α : Type} {P : α → Prop} {c c' : FileCache α} {tree : FileTree} {root : Path}

theorem AllItems.of_extracted (h : c.AllItems P) {p : Path} {items : List α}
    (hi : Extracted c.extract tree p items) : ∀ x ∈ items, P x := by
  obtain ⟨text, _, hx | ⟨_, rfl⟩⟩ := hi
  · exact h.extracted _ p text items hx
  · simp

theorem AllItems.of_effect (h : c.AllItems P) {op : Operation} {out : Outcome}
    (he : Effect c tree root op c' out) : c'.AllItems P := by
  have hsound := he.sound h.sound
  have hentries : ∀ e ∈ c.snapshot.entries, ∀ x ∈ e.2, P x := fun e hm x hx =>
    h.items x (by rw [h.sound.items]; exact List.mem_flatMap.mpr ⟨e, hm, hx⟩)
  induction he with
  | @populated entries _ hall =>
    refine ⟨hsound, h.extracted, fun x hx => ?_⟩
    obtain ⟨e, hm, hx⟩ := List.mem_flatMap.mp hx
    exact h.of_extracted (hall e hm) x hx
  | @replaced p q items old l r hi heq _ =>
    refine ⟨hsound, h.extracted, fun x hx => ?_⟩
    obtain ⟨e, hm, hx⟩ := List.mem_flatMap.mp hx
    rcases List.mem_append.mp hm with hl | hr
    · exact hentries e (by rw [heq]; exact List.mem_append_left _ hl) x hx
    · rcases List.mem_cons.mp hr with rfl | hr
      · exact h.of_extracted hi x hx
      · exact hentries e (by rw [heq]; exact List.mem_append_right _ (List.mem_cons_of_mem _ hr)) x hx
  | @added p items hi _ =>
    refine ⟨hsound, h.extracted, fun x hx => ?_⟩
    obtain ⟨e, hm, hx⟩ := List.mem_flatMap.mp hx
    rcases List.mem_append.mp hm with hl | hr
    · exact hentries e hl x hx
    · obtain rfl := List.mem_singleton.mp hr
      exact h.of_extracted hi x hx
  | removed =>
    refine ⟨hsound, h.extracted, fun x hx => ?_⟩
    obtain ⟨e, hm, hx⟩ := List.mem_flatMap.mp hx
    exact hentries e (List.mem_of_mem_filter hm) x hx
  | populateBroken _ _ | unreadable _ | refreshBroken _ => exact h
  | createdOrChanged _ _ ih | deleted _ ih => exact ih hsound

theorem AllItems.populate (h : c.AllItems P) (tree : FileTree) (root : Path) :
    (c.populate tree root).1.AllItems P := h.of_effect (effect_populate c tree root)

theorem AllItems.apply (h : c.AllItems P) (tree : FileTree) (p : Path) (event : FileEvent) :
    (c.apply tree p event).1.AllItems P :=
  -- an event is read without the root, so any root will do
  h.of_effect (effect_perform h.sound ⟨tree, p, .apply p event⟩)

end FileCache

theorem Offer.allItems_newCache {α : Type} {P : α → Prop} {pattern : String}
    {read : Path → String → Option (List α)}
    (h : ∀ p text items, read p text = some items → ∀ x ∈ items, P x) :
    (Offer.newCache pattern read).AllItems P := by
  refine ⟨FileCache.sound_new _ _, fun status p text items hi => ?_, by simp [newCache, FileCache.items]⟩
  cases hr : read p text with
  | none => simp [newCache, hr] at hi
  | some found =>
    simp only [newCache, hr, Extraction.items.injEq] at hi
    rw [← hi]
    exact h p text found hr

/-- The caches of a site keep no item with a payload. -/
structure Caches.NoPayload (cs : Caches) : Prop where
  hooks : cs.hooks.AllItems (·.data = none)
  routes : cs.routes.AllItems (·.data = none)
  services : cs.services.AllItems (·.data = none)
  globals : cs.globals.AllItems (·.data = none)

theorem Caches.NoPayload.map {cs : Caches} (h : cs.NoPayload)
    {f : {α : Type} → FileCache α → FileCache α}
    (hf : ∀ {α : Type} {P : α → Prop} {c : FileCache α}, c.AllItems P → (f c).AllItems P) :
    (cs.map f).NoPayload := ⟨hf h.hooks, hf h.routes, hf h.services, hf h.globals⟩

theorem Caches.noPayload_fresh : Caches.fresh.NoPayload := by
  have hooks : Offer.Hooks.cache.AllItems (·.data = none) := by
    rw [Offer.Hooks.cache]
    refine Offer.allItems_newCache fun p text items h x hx => ?_
    obtain rfl := Option.some.inj h
    obtain ⟨hook, _, rfl⟩ := List.mem_map.mp hx
    rfl
  have routes : Offer.Routes.cache.AllItems (·.data = none) := by
    rw [Offer.Routes.cache]
    refine Offer.allItems_newCache fun p text items h x hx => ?_
    obtain ⟨names, _, rfl⟩ := Option.map_eq_some_iff.mp h
    obtain ⟨name, _, rfl⟩ := List.mem_map.mp hx
    rfl
  have services : Offer.Services.cache.AllItems (·.data = none) := by
    rw [Offer.Services.cache]
    refine Offer.allItems_newCache fun p text items h x hx => ?_
    obtain ⟨names, _, rfl⟩ := Option.map_eq_some_iff.mp h
    obtain ⟨name, _, rfl⟩ := List.mem_map.mp hx
    rfl
  have globals : Offer.Globals.cache.AllItems (·.data = none) := by
    rw [Offer.Globals.cache]
    refine Offer.allItems_newCache fun p text items h x hx => ?_
    obtain rfl := Option.some.inj h
    obtain ⟨g, _, rfl⟩ := List.mem_map.mp hx
    rfl
  exact ⟨hooks, routes, services, globals⟩

namespace Site

variable {s : Site} {tree : FileTree}

theorem noPayload_populate (h : s.caches.NoPayload) (tree : FileTree) :
    (s.populate tree).caches.NoPayload :=
  Caches.NoPayload.map (f := fun c => (c.populate tree s.root).1) h fun hc => hc.populate tree s.root

theorem noPayload_onEvent (h : s.caches.NoPayload) (tree : FileTree) (p : Path) (event : FileEvent) :
    (s.onEvent tree p event).caches.NoPayload := by
  rw [onEvent]
  split
  · exact h
  · split
    · exact h
    · refine Caches.NoPayload.map
        (f := fun c => if c.watches s.root p then (c.apply tree p event).1 else c) h fun hc => ?_
      split
      · exact hc.apply tree p event
      · exact hc

theorem data_of_mem_hooks {known : List Completion} (hk : ∀ x ∈ known, x.data = none) {root : Path}
    {r : Request} {x : Completion} (hx : x ∈ Offer.Hooks.offered tree root known r) :
    x.data = none := by
  rw [Offer.Hooks.offered] at hx
  split at hx
  · simp at hx
  · split at hx
    · obtain ⟨y, hy, rfl⟩ := List.mem_map.mp hx
      exact hk y hy
    · exact hk x hx

theorem data_of_mem_translations {known : List Offer.Translations.Entry} {r : Request}
    {x : Completion} (hx : x ∈ Offer.Translations.offered known r) : x.data = none := by
  rw [Offer.Translations.offered] at hx
  split at hx
  · obtain ⟨msgid, _, rfl⟩ := List.mem_map.mp hx
    have hplain : ∀ language quote, (Offer.Translations.completion language quote msgid).data = none := by
      intro language quote
      simp only [Offer.Translations.completion]
      split <;> rfl
    unfold Offer.Translations.replacing
    split <;> exact hplain _ _
  · simp at hx

/-- **An item with a payload** is one of a template function or filter. -/
theorem mem_templates_of_payload (h : s.caches.NoPayload) {r : Request} {x : Completion}
    (hx : x ∈ s.complete tree r) (hd : x.data ≠ none) : x ∈ Offer.Templates.offered s.root r := by
  rw [complete] at hx
  split at hx
  · simp at hx
  · simp only [List.mem_append] at hx
    rcases hx with ((((hx | hx) | hx) | hx) | hx) | hx
    · exact absurd (data_of_mem_hooks h.hooks.items hx) hd
    · rw [Offer.Routes.offered] at hx
      split at hx
      · exact absurd (h.routes.items x hx) hd
      · simp at hx
    · rw [Offer.Services.offered] at hx
      split at hx
      · exact absurd (h.services.items x hx) hd
      · simp at hx
    · rw [Offer.Globals.offered] at hx
      split at hx
      · exact absurd (h.globals.items x hx) hd
      · simp at hx
    · exact absurd (data_of_mem_translations hx) hd
    · exact hx

end Site

end SiteAssist
