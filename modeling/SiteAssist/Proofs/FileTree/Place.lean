import SiteAssist.Composer
import SiteAssist.Proofs.FileTree.Locating

/-!
# The place of a folder

A folder may be named in many ways, by `..` steps among others, and is still in one place
(`FileTree.placeOf`).  Names with the same components are of one place, if something lies in it
(`placeOf_eq_of_steps`), and in a site its manifest does (`placeOf_eq_of_isSite`).
-/

namespace SiteAssist

namespace FileTree

open SiteAssist.Path (IsFileName)

variable {tree : FileTree}

/-- Where a path leads: its canonical path, or the path itself where nothing is. -/
def placeOf (tree : FileTree) (p : Path) : Path := (tree.canonical? p).getD p

/-- A name in a directory is one step below its location. -/
theorem exists_location_of_present_join {p : Path} (h : p.isAbsolute = true) {n : String}
    (hn : IsFileName n) (hp : tree.present (p.join n) = true) :
    ∃ l, tree.locate? p = some l ∧ tree.placeOf p = pathOf l ∧
      tree.locate? (p.join n) = some (l ++ [n]) := by
  have hdir := isDirectory_of_present_join h hn.2.2.2 hp
  obtain ⟨l, hl, hd⟩ := isDirectory_iff.mp hdir
  refine ⟨l, hl, ?_, ?_⟩
  · rw [placeOf, canonical?, hl, Option.bind_some, isDirectoryAt_iff.mp hd]
    rfl
  · rw [locate?_join h hn.2.2.2, hl, Option.bind_some, follow_name hn, if_pos hd]
    rfl

theorem placeOf_eq_of_steps {p q : Path} (hp : p.isAbsolute = true) (hq : q.isAbsolute = true)
    {n : String} (hn : IsFileName n) (hpn : tree.present (p.join n) = true)
    (hqn : tree.present (q.join n) = true) (h : p.steps = q.steps) :
    tree.placeOf p = tree.placeOf q := by
  obtain ⟨l, _, hlp, hl⟩ := exists_location_of_present_join hp hn hpn
  obtain ⟨m, _, hmq, hm⟩ := exists_location_of_present_join hq hn hqn
  have hend (r : Path) (hr : r.isAbsolute = true) : EndsInStep (r.join n) := by
    have hlast := endsInStep_extend hr (List.cons_ne_nil n []) (by simpa using hn)
    rwa [Path.extend_cons, Path.extend_nil] at hlast
  have hsteps : (p.join n).steps = (q.join n).steps := by
    rw [Path.steps_join hp hn.2.2.2, Path.steps_join hq hn.2.2.2, h]
  have hloc : tree.locate? (p.join n) = tree.locate? (q.join n) :=
    locate?_eq_of_steps (Path.isAbsolute_join hp hn.2.2.2) (Path.isAbsolute_join hq hn.2.2.2)
      (hend p hp) (hend q hq) hsteps
  have heq : l ++ [n] = m ++ [n] := Option.some.inj (hl.symm.trans (hloc.trans hm))
  rw [hlp, hmq, List.append_cancel_right heq]

/-- A path that leads anywhere starts at the root, and so does what it was joined to. -/
theorem isAbsolute_of_present_join {p : Path} {n : String} (hn : IsFileName n)
    (h : tree.present (p.join n) = true) : p.isAbsolute = true := by
  have habs : (p.join n).isAbsolute = true := by
    cases hrel : (p.join n).isAbsolute with
    | true => rfl
    | false =>
      have hnone : tree.locate? (p.join n) = none := by
        rw [locate?]
        split
        · rw [if_neg (by simp [hrel])]
        · rfl
      simp [present, find?, hnone] at h
  have hhead : n.toList.head? ≠ some '/' := fun hh => hn.2.2.2 (List.mem_of_head? hh)
  by_cases he : p.text = ""
  · simp [Path.join, he, Path.isAbsolute, hhead] at habs
  · have hne : p.text.toList ≠ [] := fun hc => he (String.toList_eq_nil_iff.mp hc)
    obtain ⟨c, cs, hc⟩ := List.exists_cons_of_ne_nil hne
    rw [Path.isAbsolute, hc]
    rw [Path.join, if_neg (by simp [hhead, he])] at habs
    split at habs
    all_goals simpa [Path.isAbsolute, hc] using habs

end FileTree

namespace Composer

variable {tree : FileTree}

/-- The manifest of a site is there. -/
theorem present_of_isSite {p : Path} (h : isSite tree p = true) :
    tree.present (p.join "composer.json") = true := by
  rw [isSite, readManifest] at h
  cases hr : tree.readText? (p.join "composer.json") with
  | none => simp [hr] at h
  | some text =>
    rw [FileTree.readText?] at hr
    rw [FileTree.present]
    cases hf : tree.find? (p.join "composer.json") with
    | none => simp [hf] at hr
    | some e => rfl

theorem isAbsolute_of_isSite {p : Path} (h : isSite tree p = true) : p.isAbsolute = true :=
  FileTree.isAbsolute_of_present_join (by decide) (present_of_isSite h)

/-- **Sites with the same components are in one place.** -/
theorem placeOf_eq_of_isSite {p q : Path} (hp : isSite tree p = true) (hq : isSite tree q = true)
    (h : p.same q = true) : tree.placeOf p = tree.placeOf q :=
  FileTree.placeOf_eq_of_steps (isAbsolute_of_isSite hp) (isAbsolute_of_isSite hq) (by decide)
    (present_of_isSite hp) (present_of_isSite hq) (Path.same_iff.mp h)

end Composer

end SiteAssist
