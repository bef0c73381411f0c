import SiteAssist.Proofs.FileTree.Place
import SiteAssist.Proofs.Site.Payload

/-!
# Which sites are located

Some folders are gone through in order; of those that are sites the first of each place is taken, and
what is taken gets the next number (`ids_locateAfter`, `pairwise_locateAfter`).  `Arrivals` says all this
of the sites that a session adds to those it keeps.
-/

namespace SiteAssist

namespace Site

variable {tree : FileTree}

/-- The recursion, with the place of the folder under its name. -/
theorem locateAfter_cons (tree : FileTree) (seen : List Path) (n : Nat) (f : Path) (fs : List Path) :
    locateAfter tree seen n (f :: fs) =
      if seen.any (·.same (tree.placeOf f)) then locateAfter tree seen n fs
      else if Composer.isSite tree f then
        { id := n, root := f } :: locateAfter tree (tree.placeOf f :: seen) (n + 1) fs
      else locateAfter tree (tree.placeOf f :: seen) n fs := rfl

/-- **What is located is numbered in order.** -/
theorem ids_locateAfter (tree : FileTree) : ∀ (fs seen : List Path) (n : Nat),
    (locateAfter tree seen n fs).map (·.id) = List.range' n (locateAfter tree seen n fs).length := by
  intro fs
  induction fs with
  | nil => intro seen n; rfl
  | cons f fs ih =>
    intro seen n
    rw [locateAfter_cons]
    split
    · exact ih seen n
    · split
      · rw [List.map_cons, List.length_cons, List.range'_succ, ih]
      · exact ih _ n

/-- A located site is one of the folders that are sites, and as new, at a place that was not seen
before. -/
theorem of_mem_locateAfter : ∀ {fs seen : List Path} {n : Nat} {x : Site},
    x ∈ locateAfter tree seen n fs →
      x.root ∈ fs ∧ x = { id := x.id, root := x.root } ∧ Composer.isSite tree x.root = true ∧
        ∀ q ∈ seen, q.same (tree.placeOf x.root) = false := by
  intro fs
  induction fs with
  | nil => intro seen n x hx; simp [locateAfter] at hx
  | cons f fs ih =>
    intro seen n x hx
    rw [locateAfter_cons] at hx
    split at hx
    · obtain ⟨hr, hx, hsite, hseen⟩ := ih hx
      exact ⟨List.mem_cons_of_mem f hr, hx, hsite, hseen⟩
    · rename_i hnew
      rw [Bool.not_eq_true, List.any_eq_false] at hnew
      have hlater : x ∈ locateAfter tree (tree.placeOf f :: seen) n fs ∨
          x ∈ locateAfter tree (tree.placeOf f :: seen) (n + 1) fs →
          x.root ∈ f :: fs ∧ x = { id := x.id, root := x.root } ∧
            Composer.isSite tree x.root = true ∧ ∀ q ∈ seen, q.same (tree.placeOf x.root) = false := by
        intro hx
        obtain ⟨hr, hx, hsite, hseen⟩ := hx.elim ih ih
        exact ⟨List.mem_cons_of_mem f hr, hx, hsite, fun q hq => hseen q (List.mem_cons_of_mem _ hq)⟩
      split at hx
      · rename_i hsite
        rcases List.mem_cons.mp hx with rfl | hx
        · exact ⟨List.mem_cons_self, rfl, hsite, fun q hq => by simpa using hnew q hq⟩
        · exact hlater (Or.inr hx)
      · exact hlater (Or.inl hx)

/-- **No two located sites are at one place.** -/
theorem pairwise_locateAfter (tree : FileTree) : ∀ (fs seen : List Path) (n : Nat),
    (locateAfter tree seen n fs).Pairwise fun x y =>
      (tree.placeOf x.root).same (tree.placeOf y.root) = false := by
  intro fs
  induction fs with
  | nil => intro seen n; exact .nil
  | cons f fs ih =>
    intro seen n
    rw [locateAfter_cons]
    split
    · exact ih seen n
    · split
      · exact .cons (fun y hy => (of_mem_locateAfter hy).2.2.2 _ List.mem_cons_self) (ih _ _)
      · exact ih _ n

/-- Sites that come to those that are kept: they are numbered from the next number on, and as new. -/
structure Arrivals (tree : FileTree) (next : Nat) (kept : List Site) (folders : List Path)
    (added : List Site) : Prop where
  ids : added.map (·.id) = List.range' next added.length
  named : ∀ x ∈ added, x.root ∈ folders
  located : ∀ x ∈ added, Composer.isSite tree x.root = true
  placed : added.Pairwise fun x y => (tree.placeOf x.root).same (tree.placeOf y.root) = false
  strange : ∀ x ∈ added, ∀ y ∈ kept, y.root.same x.root = false
  unread : ∀ x ∈ added, x.outlines = []
  noPayload : ∀ x ∈ added, x.caches.NoPayload

theorem Arrivals.id_mem {next : Nat} {kept added : List Site} {folders : List Path}
    (h : Arrivals tree next kept folders added) {x : Site} (hx : x ∈ added) :
    next ≤ x.id ∧ x.id < next + added.length := by
  have hid := List.mem_map_of_mem (f := Site.id) hx
  rwa [h.ids, List.mem_range'_1] at hid

theorem Arrivals.nodup_ids {next : Nat} {kept added : List Site} {folders : List Path}
    (h : Arrivals tree next kept folders added) : (added.map (·.id)).Nodup := by
  rw [h.ids]
  exact List.nodup_range'

/-- Sites that come at once have roots of their own: those with one root are in one place. -/
theorem Arrivals.pairwise_root {next : Nat} {kept added : List Site} {folders : List Path}
    (h : Arrivals tree next kept folders added) :
    added.Pairwise fun x y => x.root.same y.root = false := by
  refine h.placed.imp_of_mem fun {x y} hx hy hxy => Bool.eq_false_iff.mpr fun hsame => ?_
  rw [Composer.placeOf_eq_of_isSite (h.located x hx) (h.located y hy) hsame, Path.same,
    beq_self_eq_true] at hxy
  exact Bool.noConfusion hxy

theorem arrivals_locate (tree : FileTree) (next : Nat) (kept : List Site) (folders : List Path) :
    Arrivals tree next kept folders
      ((locate tree next (folders.filter fun f => !kept.any (·.root.same f))).map
        (·.populate tree)) := by
  have hmem : ∀ x ∈ (locate tree next (folders.filter fun f => !kept.any (·.root.same f))).map
      (·.populate tree), ∃ y ∈ locate tree next (folders.filter fun f => !kept.any (·.root.same f)),
        x = y.populate tree ∧ y = { id := y.id, root := y.root } := by
    intro x hx
    obtain ⟨y, hy, rfl⟩ := List.mem_map.mp hx
    exact ⟨y, hy, rfl, (of_mem_locateAfter hy).2.1⟩
  constructor
  · rw [List.map_map, List.length_map]
    exact ids_locateAfter tree _ [] next
  · intro x hx
    obtain ⟨y, hy, rfl, _⟩ := hmem x hx
    exact List.mem_of_mem_filter (of_mem_locateAfter hy).1
  · intro x hx
    obtain ⟨y, hy, rfl, _⟩ := hmem x hx
    exact (of_mem_locateAfter hy).2.2.1
  · rw [List.pairwise_map]
    exact pairwise_locateAfter tree _ [] next
  · intro x hx z hz
    obtain ⟨y, hy, rfl, _⟩ := hmem x hx
    have hlive := List.of_mem_filter (of_mem_locateAfter hy).1
    rw [Bool.not_eq_true', List.any_eq_false] at hlive
    exact Bool.eq_false_iff.mpr (hlive z hz)
  · intro x hx
    obtain ⟨y, _, rfl, hnew⟩ := hmem x hx
    show y.outlines = []
    rw [hnew]
  · intro x hx
    obtain ⟨y, _, rfl, hnew⟩ := hmem x hx
    refine noPayload_populate ?_ tree
    rw [hnew]
    exact Caches.noPayload_fresh

end Site

end SiteAssist
