import Mathlib.Data.List.Induction
import SiteAssist.Proofs.Site.Locating

/-!
# Which folders become sites

Of some folders those are taken that are sites and the first of their place, in the order in which they
come (`chosen`).  A folder that is no site is passed over, but its place counts as seen; that hides
nothing, since a folder of the same place would read the same manifest.

* `chosen_concat`: one folder more **adds itself or nothing**, by what came before it and by its own
  manifest.
* `roots_locate`: the sites that are located have **these folders as their roots**.
* `chosen_congr`: what a manifest says, or that it cannot be read, **matters for its own folder only**.
* `chosen_idem`: of the folders that were taken, all are taken again.
* `ids_locateAll`: the sites of several calls have **numbers of their own**.
-/

namespace SiteAssist

namespace Composer

variable {tree : FileTree} {dir : Path}

/-- The folder has a manifest, which is text, can be read, and requires the core. -/
def RequiresCore (tree : FileTree) (dir : Path) : Prop :=
  ∃ text m, tree.readText? (dir.join "composer.json") = some text ∧ Manifest.parse text = .ok m ∧
    corePackage ∈ m.requires

theorem isSite_iff : isSite tree dir = true ↔ RequiresCore tree dir := by
  rw [isSite, readManifest]
  constructor
  · intro h
    cases hr : tree.readText? (dir.join "composer.json") with
    | none => simp [hr] at h
    | some text =>
      cases hm : Manifest.parse text with
      | error fault => simp [hr, hm, Except.mapError] at h
      | ok m =>
        refine ⟨text, m, hr, hm, ?_⟩
        simpa [hr, hm, Except.mapError, Manifest.isSite] using h
  · rintro ⟨text, m, hr, hm, hcore⟩
    simpa [hr, hm, Except.mapError, Manifest.isSite] using hcore

instance (tree : FileTree) (dir : Path) : Decidable (RequiresCore tree dir) :=
  decidable_of_iff _ isSite_iff

theorem requiresCore_congr {tree' : FileTree}
    (h : tree'.readText? (dir.join "composer.json") = tree.readText? (dir.join "composer.json")) :
    RequiresCore tree' dir ↔ RequiresCore tree dir := by
  rw [RequiresCore, h, RequiresCore]

end Composer

namespace Site

open Composer (RequiresCore isSite_iff requiresCore_congr)

variable {tree : FileTree} {fs before seen : List Path} {f : Path}

/-! ## The folders that are taken -/

/-- No folder before this one is in its place. -/
def IsFirst (tree : FileTree) (before : List Path) (f : Path) : Prop :=
  ∀ g ∈ before, (tree.placeOf g).same (tree.placeOf f) = false

instance (tree : FileTree) (before : List Path) (f : Path) : Decidable (IsFirst tree before f) :=
  List.decidableBAll _ before

/-- Those folders, in order, that are the first of their place and require the core. -/
def chosen (tree : FileTree) (folders : List Path) : List Path :=
  (folders.zipIdx.filter fun (f, i) => IsFirst tree (folders.take i) f ∧ RequiresCore tree f).map Prod.fst

/-- **One folder more** is taken or passed over, and changes nothing else. -/
theorem chosen_concat (tree : FileTree) (fs : List Path) (f : Path) :
    chosen tree (fs ++ [f]) =
      chosen tree fs ++ if IsFirst tree fs f ∧ RequiresCore tree f then [f] else [] := by
  have hbefore : ∀ x ∈ fs.zipIdx, (fs ++ [f]).take x.2 = fs.take x.2 := by
    intro x hx
    have hlt : x.2 < fs.length := by simpa using List.snd_lt_of_mem_zipIdx hx
    exact List.take_append_of_le_length (Nat.le_of_lt hlt)
  rw [chosen, List.zipIdx_append, List.filter_append, List.map_append]
  congr 1
  · rw [chosen]
    congr 1
    refine List.filter_congr fun x hx => ?_
    simp only [hbefore x hx]
  · by_cases h : IsFirst tree fs f ∧ RequiresCore tree f
    · simp [h]
    · simp [h]

theorem mem_of_mem_chosen (h : f ∈ chosen tree fs) : f ∈ fs ∧ RequiresCore tree f := by
  obtain ⟨x, hx, rfl⟩ := List.mem_map.mp h
  obtain ⟨hmem, htake⟩ := List.mem_filter.mp hx
  exact ⟨List.fst_mem_of_mem_zipIdx hmem, (of_decide_eq_true htake).2⟩

/-- No two folders that are taken are in one place. -/
theorem pairwise_chosen (tree : FileTree) (fs : List Path) :
    (chosen tree fs).Pairwise fun f g => (tree.placeOf f).same (tree.placeOf g) = false := by
  induction fs using List.reverseRecOn with
  | nil => exact .nil
  | append_singleton fs f ih =>
    rw [chosen_concat]
    split
    · rename_i h
      refine List.pairwise_append.mpr ⟨ih, List.pairwise_singleton _ _, fun g hg x hx => ?_⟩
      rw [List.mem_singleton.mp hx]
      exact h.1 g (mem_of_mem_chosen hg).1
    · rwa [List.append_nil]

/-- Of folders in different places, all are taken that require the core. -/
theorem chosen_eq_self (hcore : ∀ f ∈ fs, RequiresCore tree f)
    (hplace : fs.Pairwise fun f g => (tree.placeOf f).same (tree.placeOf g) = false) :
    chosen tree fs = fs := by
  induction fs using List.reverseRecOn with
  | nil => rfl
  | append_singleton fs f ih =>
    obtain ⟨hfs, _, hlast⟩ := List.pairwise_append.mp hplace
    have hfirst : IsFirst tree fs f := fun g hg => hlast g hg f List.mem_cons_self
    have hf : RequiresCore tree f := hcore f (List.mem_append_right fs List.mem_cons_self)
    rw [chosen_concat, ih (fun g hg => hcore g (List.mem_append_left _ hg)) hfs, if_pos ⟨hfirst, hf⟩]

/-- **The folders that were taken are taken again.** -/
theorem chosen_idem (tree : FileTree) (fs : List Path) :
    chosen tree (chosen tree fs) = chosen tree fs :=
  chosen_eq_self (fun _ hf => (mem_of_mem_chosen hf).2) (pairwise_chosen tree fs)

/-- **A manifest matters for its own folder only**: in another tree, where the folders are in their
places and some have other manifests, the same of the others are taken. -/
theorem chosen_congr {tree' : FileTree} (other : Path → Bool)
    (hplace : ∀ f ∈ fs, tree'.placeOf f = tree.placeOf f)
    (hread : ∀ f ∈ fs, other f = true →
      tree'.readText? (f.join "composer.json") = tree.readText? (f.join "composer.json")) :
    (chosen tree' fs).filter other = (chosen tree fs).filter other := by
  induction fs using List.reverseRecOn with
  | nil => rfl
  | append_singleton fs f ih =>
    have hf : f ∈ fs ++ [f] := List.mem_append_right fs List.mem_cons_self
    have hfirst : IsFirst tree' fs f ↔ IsFirst tree fs f := by
      refine forall₂_congr fun g hg => ?_
      rw [hplace f hf, hplace g (List.mem_append_left _ hg)]
    rw [chosen_concat, chosen_concat, List.filter_append, List.filter_append,
      ih (fun g hg => hplace g (List.mem_append_left _ hg))
        fun g hg => hread g (List.mem_append_left _ hg)]
    congr 1
    cases hother : other f with
    | false => split <;> split <;> simp [hother]
    | true => simp only [hfirst, requiresCore_congr (hread f hf hother)]

/-! ## The sites that are located -/

/-- A folder of a place that was seen is in none that was not. -/
theorem same_eq_false_of_seen {p q : Path} (hseen : ∀ r ∈ seen, r.same q = false)
    (hp : seen.any (·.same p) = true) : p.same q = false := by
  obtain ⟨r, hr, hrp⟩ := List.any_eq_true.mp hp
  have hrq := hseen r hr
  rwa [Path.same, Path.same_iff.mp hrp] at hrq

theorem isFirst_cons {g : Path} :
    IsFirst tree (g :: fs) f ↔ (tree.placeOf g).same (tree.placeOf f) = false ∧ IsFirst tree fs f :=
  List.forall_mem_cons

/-- The roots of what is located, with one folder more at the end. -/
theorem roots_locateAfter_concat (tree : FileTree) (f : Path) : ∀ (fs seen : List Path) (n : Nat),
    (locateAfter tree seen n (fs ++ [f])).map (·.root) =
      (locateAfter tree seen n fs).map (·.root) ++
        if (∀ q ∈ seen, q.same (tree.placeOf f) = false) ∧ IsFirst tree fs f ∧ RequiresCore tree f
        then [f] else [] := by
  intro fs
  induction fs with
  | nil =>
    intro seen n
    have hfirst : IsFirst tree [] f := by simp [IsFirst]
    rw [List.nil_append, locateAfter_cons]
    by_cases hseen : seen.any (·.same (tree.placeOf f)) = true
    · have hnot : ¬∀ q ∈ seen, q.same (tree.placeOf f) = false := fun h => by
        have := same_eq_false_of_seen h hseen
        simp [Path.same] at this
      rw [if_pos hseen, if_neg fun h => hnot h.1]
      rfl
    · have hnew : ∀ q ∈ seen, q.same (tree.placeOf f) = false := by simpa using hseen
      rw [if_neg hseen]
      by_cases hsite : Composer.isSite tree f = true
      · rw [if_pos hsite, if_pos ⟨hnew, hfirst, isSite_iff.mp hsite⟩]
        rfl
      · rw [if_neg hsite, if_neg fun h => hsite (isSite_iff.mpr h.2.2)]
        rfl
  | cons g gs ih =>
    intro seen n
    rw [List.cons_append, locateAfter_cons, locateAfter_cons]
    by_cases hseen : seen.any (·.same (tree.placeOf g)) = true
    · rw [if_pos hseen, if_pos hseen, ih]
      congr 1
      refine if_congr (and_congr_right fun h => ?_) rfl rfl
      rw [isFirst_cons, and_iff_right (same_eq_false_of_seen h hseen)]
    · -- the place of the folder goes from those before the list to those seen
      have hmove : ∀ p : Prop, ((∀ q ∈ tree.placeOf g :: seen, q.same (tree.placeOf f) = false) ∧
          IsFirst tree gs f ∧ p) ↔
          (∀ q ∈ seen, q.same (tree.placeOf f) = false) ∧ IsFirst tree (g :: gs) f ∧ p := by
        intro p
        rw [List.forall_mem_cons, isFirst_cons]
        tauto
      rw [if_neg hseen, if_neg hseen]
      split
      · rw [List.map_cons, List.map_cons, ih, List.cons_append, if_congr (hmove _) rfl rfl]
      · rw [ih, if_congr (hmove _) rfl rfl]

/-- **The sites that are located are the folders that are taken**, in their order. -/
theorem roots_locate (tree : FileTree) (n : Nat) (fs : List Path) :
    (locate tree n fs).map (·.root) = chosen tree fs := by
  induction fs using List.reverseRecOn with
  | nil => rfl
  | append_singleton fs f ih =>
    rw [locate, roots_locateAfter_concat, chosen_concat, ← ih, locate]
    congr 1
    exact if_congr (and_iff_right (by simp)) rfl rfl

/-! ## The numbers of sites -/

/-- The sites of several calls, each of which numbers on from where the one before it ended. -/
def locateAll : Nat → List (FileTree × List Path) → List Site
  | _, [] => []
  | n, (tree, folders) :: calls =>
    let found := locate tree n folders
    found ++ locateAll (n + found.length) calls

/-- **All sites are numbered in order**, whichever call found them. -/
theorem ids_locateAll : ∀ (calls : List (FileTree × List Path)) (n : Nat),
    (locateAll n calls).map (·.id) = List.range' n (locateAll n calls).length := by
  intro calls
  induction calls with
  | nil => intro n; rfl
  | cons call calls ih =>
    intro n
    obtain ⟨tree, folders⟩ := call
    rw [locateAll]
    simp only [List.map_append, List.length_append, ih]
    rw [locate, ids_locateAfter, List.range'_append_1]

/-- **What the locator makes of some folders.**  Those folders become sites, in order, that are the first
of their place and require the core.  Whether others can be read, and what they say, does not change
that.  Of the roots of the sites, all become sites again.  And no two sites, of this call or of any
others, have one number. -/
theorem located_folders (tree : FileTree) (n : Nat) (folders : List Path) :
    (locate tree n folders).map (·.root) = chosen tree folders ∧
    (∀ (tree' : FileTree) (other : Path → Bool),
      (∀ f ∈ folders, tree'.placeOf f = tree.placeOf f) →
      (∀ f ∈ folders, other f = true →
        tree'.readText? (f.join "composer.json") = tree.readText? (f.join "composer.json")) →
      ((locate tree' n folders).map (·.root)).filter other =
        ((locate tree n folders).map (·.root)).filter other) ∧
    (∀ m, (locate tree m ((locate tree n folders).map (·.root))).map (·.root) =
      (locate tree n folders).map (·.root)) ∧
    ∀ calls, ((locateAll n ((tree, folders) :: calls)).map (·.id)).Nodup := by
  refine ⟨roots_locate tree n folders, fun tree' other hplace hread => ?_, fun m => ?_,
    fun calls => ?_⟩
  · rw [roots_locate, roots_locate]
    exact chosen_congr other hplace hread
  · rw [roots_locate, roots_locate, chosen_idem]
  · rw [ids_locateAll]
    exact List.nodup_range'

/-- Two sites, a folder whose manifest is as given, and an empty folder. -/
def folderTree (manifest : String) : FileTree :=
  ⟨[(["a"], .directory),
    (["a", "composer.json"], .file "\x7b\"require\": \x7b\"drupal/core-recommended\": 1\x7d\x7d".toUTF8),
    (["b"], .directory), (["b", "composer.json"], .file manifest.toUTF8),
    (["c"], .directory),
    (["c", "composer.json"], .file "\x7b\"require\": \x7b\"drupal/core-recommended\": 2\x7d\x7d".toUTF8),
    (["d"], .directory)]⟩

/-- Folders that are named twice, are no sites, or are not there at all. -/
def namedFolders : List Path :=
  [⟨"/b"⟩, ⟨"/c/../a"⟩, ⟨"/none"⟩, ⟨"/a/"⟩, ⟨"/d"⟩, ⟨"/c"⟩, ⟨"/none/"⟩, ⟨"/c"⟩]

/-- A broken manifest is of no account, and one that is a site's takes nothing from the others. -/
theorem located_folders_broken :
    (locate (folderTree "\x7b") 1 namedFolders).map (·.root) = [⟨"/c/../a"⟩, ⟨"/c"⟩] ∧
      ((locate (folderTree "\x7b\"require\": \x7b\"drupal/core-recommended\": 3\x7d\x7d") 1
        namedFolders).map (·.root)).filter (· ≠ ⟨"/b"⟩) = [⟨"/c/../a"⟩, ⟨"/c"⟩] := by
  obtain ⟨hroots, hothers, _⟩ := located_folders (folderTree "\x7b") 1 namedFolders
  have hchosen : chosen (folderTree "\x7b") namedFolders = [⟨"/c/../a"⟩, ⟨"/c"⟩] := by decide +kernel
  refine ⟨hroots.trans hchosen, ?_⟩
  rw [hothers _ _ (by decide +kernel) (by decide +kernel), hroots, hchosen]
  decide +kernel

end Site

end SiteAssist
