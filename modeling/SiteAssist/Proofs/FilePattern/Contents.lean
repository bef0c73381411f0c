import Mathlib.Data.List.Sort
import SiteAssist.FilePattern
import SiteAssist.Proofs.FileTree.Change
import SiteAssist.Proofs.Text.Order

/-!
# A scan does not look into files

Two trees are alike (`FileTree.Alike`) when they have the same directories and the same files, whatever
the files contain.  A pattern finds **the same files in both, in the same order**
(`FilePattern.files_congr`).

The walk of a pattern asks where paths lead, what a directory lists and how high the tree is.  The first
follows directories alone.  The names are listed in ascending order and each once, so that they are
known by what is among them (`namesAt_congr`).
-/

namespace SiteAssist

/-- Of two different names one comes first. -/
def NameBefore (a b : String) : Prop := Text.ordered a.toList b.toList = true ∧ a ≠ b

theorem NameBefore.trans {a b c : String} (h : NameBefore a b) (h' : NameBefore b c) :
    NameBefore a c := by
  refine ⟨Text.ordered_trans h.1 h'.1, ?_⟩
  rintro rfl
  exact h.2 (String.toList_inj.mp (Text.ordered_antisymm h.1 h'.1))

instance : Std.Irrefl NameBefore := ⟨fun _ h => h.2 rfl⟩

instance : Std.Antisymm NameBefore := ⟨fun _ _ h h' =>
  String.toList_inj.mp (Text.ordered_antisymm h.1 h'.1)⟩

namespace FileTree

variable {tree tree' : FileTree}

/-! ## Names in order -/

theorem pairwise_insertName (name : String) : ∀ {ns : List String}, ns.Pairwise NameBefore →
    (insertName name ns).Pairwise NameBefore := by
  intro ns
  induction ns with
  | nil => intro _; simp [insertName]
  | cons n ns ih =>
    intro h
    obtain ⟨hn, hns⟩ := List.pairwise_cons.mp h
    rw [insertName]
    split
    · exact h
    · rename_i hne
      split
      · rename_i hle
        have hlt : NameBefore name n := ⟨hle, hne⟩
        refine List.pairwise_cons.mpr ⟨fun m hm => ?_, h⟩
        rcases List.mem_cons.mp hm with rfl | hm
        · exact hlt
        · exact hlt.trans (hn m hm)
      · rename_i hle
        have hlt : NameBefore n name :=
          ⟨(Text.ordered_total n.toList name.toList).resolve_right hle, Ne.symm hne⟩
        refine List.pairwise_cons.mpr ⟨fun m hm => ?_, ih hns⟩
        rcases mem_insertName.mp hm with rfl | hm
        · exact hlt
        · exact hn m hm

/-- The names in a directory ascend. -/
theorem pairwise_namesAt (tree : FileTree) (dir : Location) :
    (tree.namesAt dir).Pairwise NameBefore := by
  rw [namesAt]
  generalize tree.entries.filterMap _ = ms
  induction ms with
  | nil => exact .nil
  | cons m ms ih => exact pairwise_insertName m ih

/-- Something stands in a directory under each of its names. -/
theorem mem_namesAt_iff_isSome {dir : Location} {n : String} :
    n ∈ tree.namesAt dir ↔ (tree.entry? (dir ++ [n])).isSome = true := by
  rw [mem_namesAt]
  constructor
  · rintro ⟨e, hm⟩
    exact entry?_isSome_of_mem hm
  · intro h
    obtain ⟨e, he⟩ := Option.isSome_iff_exists.mp h
    exact ⟨e, mem_of_entry?_eq_some (by simp) he⟩

/-- A tree is no higher than its deepest entry. -/
theorem height_le_of_length_le {k : Nat} (h : ∀ x ∈ tree.entries, x.1.length ≤ k) :
    tree.height ≤ k := by
  rw [height]
  generalize tree.entries = es at h
  induction es with
  | nil => exact Nat.zero_le k
  | cons x es ih =>
    rw [List.map_cons, List.foldr_cons]
    exact Nat.max_le.mpr ⟨h x List.mem_cons_self, ih fun y hy => h y (List.mem_cons_of_mem x hy)⟩

/-- What is there and no directory is a file. -/
theorem isFile_eq_present (tree : FileTree) (p : Path) :
    tree.isFile p = (tree.present p && !tree.isDirectory p) := by
  rw [isFile, present, isDirectory]
  cases tree.find? p with
  | none => rfl
  | some e => cases e <;> rfl

/-! ## Trees alike -/

/-- The trees have the same directories and the same files, whatever these contain. -/
structure Alike (tree tree' : FileTree) : Prop where
  entries : ∀ loc, (tree.entry? loc).isSome = (tree'.entry? loc).isSome
  directories : ∀ loc, tree.isDirectoryAt loc = tree'.isDirectoryAt loc

namespace Alike

theorem symm (h : Alike tree tree') : Alike tree' tree where
  entries loc := (h.entries loc).symm
  directories loc := (h.directories loc).symm

theorem follow_congr (h : Alike tree tree') (ps : List (List Char)) :
    ∀ l, tree.follow l ps = tree'.follow l ps := by
  induction ps with
  | nil => intro l; rfl
  | cons p ps ih =>
    intro l
    rw [follow, follow, h.directories l, ih, ih, ih]

/-- Paths lead to the same places. -/
theorem locate?_congr (h : Alike tree tree') (p : Path) : tree.locate? p = tree'.locate? p := by
  rw [locate?, locate?]
  split
  · rw [h.follow_congr]
  · rfl

theorem present_congr (h : Alike tree tree') (p : Path) : tree.present p = tree'.present p := by
  rw [present, present, find?, find?, h.locate?_congr p]
  cases tree'.locate? p with
  | none => rfl
  | some l => exact h.entries l

theorem isDirectory_congr (h : Alike tree tree') (p : Path) :
    tree.isDirectory p = tree'.isDirectory p := by
  rw [Bool.eq_iff_iff, isDirectory_iff, isDirectory_iff, h.locate?_congr p]
  simp only [h.directories]

theorem isFile_congr (h : Alike tree tree') (p : Path) : tree.isFile p = tree'.isFile p := by
  rw [isFile_eq_present, isFile_eq_present, h.present_congr, h.isDirectory_congr]

/-- **A directory lists the same names.** -/
theorem namesAt_congr (h : Alike tree tree') (dir : Location) :
    tree.namesAt dir = tree'.namesAt dir := by
  refine (pairwise_namesAt tree dir).eq_of_mem_iff (pairwise_namesAt tree' dir) fun n => ?_
  rw [mem_namesAt_iff_isSome, mem_namesAt_iff_isSome, h.entries]

theorem names_congr (h : Alike tree tree') (p : Path) : tree.names p = tree'.names p := by
  rw [names, names, h.locate?_congr p]
  cases tree'.locate? p with
  | none => rfl
  | some l => simp only [h.directories, h.namesAt_congr]

theorem height_le (h : Alike tree tree') : tree.height ≤ tree'.height := by
  refine height_le_of_length_le fun x hx => ?_
  by_cases hne : x.1 = []
  · simp [hne]
  · have hsome := entry?_isSome_of_mem hx
    rw [h.entries] at hsome
    obtain ⟨e, he⟩ := Option.isSome_iff_exists.mp hsome
    exact length_le_height (mem_of_entry?_eq_some hne he)

theorem height_congr (h : Alike tree tree') : tree.height = tree'.height :=
  Nat.le_antisymm h.height_le h.symm.height_le

end Alike

/-- Making directories that are there already changes nothing. -/
theorem WellFormed.mkdirAt_of_isDirectoryAt (hw : tree.WellFormed) : ∀ {rest above : Location},
    tree.isDirectoryAt (above ++ rest) = true → tree.mkdirAt above rest = tree := by
  intro rest
  induction rest with
  | nil => intro above _; rfl
  | cons name rest ih =>
    intro above h
    rw [List.append_cons] at h
    have hdir : tree.entry? (above ++ [name]) = some .directory := by
      rw [← isDirectoryAt_iff]
      by_cases hr : rest = []
      · rwa [hr, List.append_nil] at h
      · exact hw.isDirectoryAt_above hr (isDirectoryAt_iff.mp h)
    rw [mkdirAt, hdir]
    exact ih h

/-- Writing to a file that is there makes a tree that is alike. -/
theorem WellFormed.alike_write (hw : tree.WellFormed) {p : Path} {old : ByteArray}
    (hf : tree.fileAt? (plainLocation p) = some old) (content : ByteArray) :
    tree.Alike (tree.write p content) := by
  have hentry := fileAt?_eq_some_iff.mp hf
  have hparent := hw.isDirectoryAt_dropLast hentry
  have hnot : ¬tree.isDirectoryAt (plainLocation p) = true := by
    rw [isDirectoryAt_iff, hentry]
    simp
  have hne : plainLocation p ≠ [] := by
    intro he
    rw [he] at hnot
    exact hnot isDirectoryAt_nil
  have hwrite : tree.write p content = tree.set (plainLocation p) (.file content) := by
    rw [FileTree.write, hw.mkdirAt_of_isDirectoryAt hparent, if_neg (by simp [hnot, hparent])]
  rw [hwrite]
  constructor
  · intro loc
    rw [entry?_set hne]
    by_cases hl : loc = plainLocation p
    · rw [if_pos hl, hl, hentry]
      rfl
    · rw [if_neg hl]
  · intro loc
    rw [Bool.eq_iff_iff, isDirectoryAt_iff, isDirectoryAt_iff, entry?_set hne]
    by_cases hl : loc = plainLocation p
    · rw [if_pos hl, hl, hentry]
      simp
    · rw [if_neg hl]

end FileTree

/-! ## Scans -/

namespace Glob

variable {tree tree' : FileTree}

theorem descend_congr (h : tree.Alike tree') {found found' : Path → String → List Path}
    (hf : ∀ q n, found q n = found' q n) :
    ∀ fuel p, descend tree found fuel p = descend tree' found' fuel p := by
  intro fuel
  induction fuel with
  | zero => intro p; rfl
  | succ k ih =>
    intro p
    rw [descend, descend, h.names_congr]
    simp only [hf, ih]

theorem walk_congr (h : tree.Alike tree') :
    ∀ (cs : List Pattern) (p : Path), walk tree cs p = walk tree' cs p := by
  intro cs
  -- a `**` takes the component after it along
  induction hl : cs.length using Nat.strong_induction_on generalizing cs with
  | _ k ih =>
    intro p
    cases cs with
    | nil => rfl
    | cons c rest =>
      have hrest : ∀ q, walk tree rest q = walk tree' rest q :=
        ih rest.length (by rw [← hl]; exact Nat.lt_succ_self _) rest rfl
      cases rest with
      | nil =>
        simp only [walk, h.isDirectory_congr, h.present_congr, h.names_congr, h.height_congr,
          descend_congr h fun _ _ => rfl]
      | cons d rest =>
        have hbelow : ∀ q, walk tree rest q = walk tree' rest q :=
          ih rest.length (by rw [← hl]; simp only [List.length_cons]; omega) rest rfl
        have hfound : ∀ (q : Path) (name : String),
            (if d.fits name.toList then walk tree rest q else []) =
              if d.fits name.toList then walk tree' rest q else [] := by
          intro q name
          rw [hbelow]
        rw [walk.eq_def, walk.eq_def]
        simp only [h.isDirectory_congr, h.present_congr, h.names_congr, h.height_congr, hrest,
          descend_congr h hfound]

theorem search_congr (h : tree.Alike tree') (text : List Char) : search tree text = search tree' text := by
  have hfile : tree.isFile = tree'.isFile := funext h.isFile_congr
  rw [search, search]
  cases components? text with
  | none => rfl
  | some cs => simp only [walk_congr h, hfile]

end Glob

/-- **A pattern finds the same files** in trees that are alike. -/
theorem FilePattern.files_congr {tree tree' : FileTree} (h : tree.Alike tree') (fp : FilePattern)
    (root : Path) : fp.files tree root = fp.files tree' root := by
  rw [files, files]
  simp only [Glob.search_congr h]

end SiteAssist
