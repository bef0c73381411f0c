import SiteAssist.Proofs.Server.Watching

/-!
# How many sites are in one place

A folder has one place and many names.  Of the folders that one message names, each place is taken once.
What was named before is told by its components alone: a name with a `..` step is not known again when it
comes in a later message, and its place has two sites then (`one_place_twice`), which both offer their
items.  What holds is that no two sites have roots of the same components, and that each place has one
site **as long as no two folders are different names of one place** (`places_apart`).
-/

namespace SiteAssist.Server.Session

variable {s : Session}

/-- Two sites in different places of a tree. -/
def InPlaces (tree : FileTree) (x y : Site) : Prop :=
  (tree.placeOf x.root).same (tree.placeOf y.root) = false

instance (tree : FileTree) (x y : Site) : Decidable (InPlaces tree x y) :=
  inferInstanceAs (Decidable (_ = _))

/-- The sites that come with a step are in different places. -/
theorem Step.places {tree : FileTree} {look : Option Lookup} {t : Session} {sent : List Notice}
    (hstep : Step s tree look t sent) (h : s.Orderly) :
    (t.sites.filter fun x => s.nextId ≤ x.id).Pairwise (InPlaces tree) := by
  cases hstep with
  | kept f keeps sites =>
    have hnone : t.sites.filter (fun x => s.nextId ≤ x.id) = [] := by
      rw [sites, List.filter_eq_nil_iff]
      intro y hy
      obtain ⟨x, hx, rfl⟩ := List.mem_map.mp hy
      have hlt := h.numbered x hx
      rw [(keeps x hx).id, decide_eq_true_iff]
      omega
    rw [hnone]
    exact .nil
  | turned removed added _ arrivals sites =>
    have hnone : (s.sites.filter fun x => !removed.any (x.root.same ·)).filter
        (fun x => s.nextId ≤ x.id) = [] := by
      rw [List.filter_eq_nil_iff]
      intro x hx
      have hlt := h.numbered x (List.mem_of_mem_filter hx)
      rw [decide_eq_true_iff]
      omega
    rw [sites, List.filter_append, hnone, List.nil_append]
    exact arrivals.placed.filter _

/-- **What holds of the places of live sites**, after any calls.

No two sites have roots of the same components.  If no two folders are different names of one place, no
two sites are in one place.  And the sites that come with one more call are in different places. -/
theorem places_apart (calls : List Call) (hrun : (after {} calls).phase = .running) :
    let s := after {} calls
    (s.sites.Pairwise fun x y => x.root.same y.root = false) ∧
    (∀ tree : FileTree,
      (∀ f ∈ s.folders, ∀ g ∈ s.folders,
        (tree.placeOf f).same (tree.placeOf g) = true → f.same g = true) →
      s.sites.Pairwise (InPlaces tree)) ∧
    ∀ c, (s.outcome c).session.phase = .running →
      ((s.outcome c).session.sites.filter fun x => s.nextId ≤ x.id).Pairwise (InPlaces c.tree) := by
  have ho := (running_of_phase calls hrun).orderly
  refine ⟨ho.apart.imp fun h => h.2, fun tree hnames => ?_, fun c hnext => ?_⟩
  · refine ho.apart.imp_of_mem fun {x y} hx hy hxy => Bool.eq_false_iff.mpr fun hplace => ?_
    have hsame := hnames x.root (ho.rooted x hx) y.root (ho.rooted y hy) hplace
    rw [hxy.2] at hsame
    exact Bool.noConfusion hsame
  · exact (step_outcome ho hrun hnext).places ho

theorem places_apart_turning :
    (after {} turning).phase = .running ∧ (after {} turning).sites.length = 1 ∧
      (after {} turning).sites.Pairwise (InPlaces oneSite) := by
  obtain ⟨hrun, hlen, hnames⟩ : (after {} turning).phase = .running ∧
      (after {} turning).sites.length = 1 ∧
      ∀ f ∈ (after {} turning).folders, ∀ g ∈ (after {} turning).folders,
        (oneSite.placeOf f).same (oneSite.placeOf g) = true → f.same g = true := by
    decide +kernel
  exact ⟨hrun, hlen, (places_apart turning hrun).2.1 oneSite hnames⟩

/-- A folder is named once at the start and again, by another name, in a later message. -/
def twice : List Call :=
  [⟨oneSite, "initialize", some (watchingParams ["file:///site"])⟩,
   ⟨oneSite, "initialized", some (.object [])⟩,
   foldersChange oneSite [] ["file:///site/../site"]]

/-- A place is taken **a second time** by another name of it, and what is offered there is offered twice. -/
theorem one_place_twice :
    (∀ c ∈ twice, c.tree = oneSite) ∧
      (after {} twice).sites.map (·.root.text) = ["/site", "/site/../site"] ∧
      ¬(after {} twice).sites.Pairwise (InPlaces oneSite) ∧
      (((after {} twice).sites.flatMap
        (·.complete oneSite (.at ⟨"/site/../site/a.twig"⟩ .twig "" 0))).map (·.label)).count "url" = 2 := by
  refine ⟨by simp [twice, foldersChange], ?_⟩
  decide +kernel

end SiteAssist.Server.Session
