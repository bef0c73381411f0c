import SiteAssist.Proofs.FileTree.Locating

/-!
# Changing a tree

Files are written and deleted one at a time, and what is asked of a tree afterwards is which regular
files it holds (`fileAt?`).

* `fileAt?_write_of_ne`, `fileAt?_delete_of_ne`: a change to one file **leaves every other file as it
  was**, although writing may make directories.
* `WellFormed.write`, `WellFormed.delete`: a well-formed tree stays well formed.
-/

namespace SiteAssist.FileTree

open SiteAssist.Path (IsFileName extend)

variable {tree : FileTree}

/-! ## Regular files -/

/-- The bytes of the regular file at a location. -/
def fileAt? (tree : FileTree) (loc : Location) : Option ByteArray :=
  match tree.entry? loc with
  | some (.file content) => some content
  | _ => none

theorem fileAt?_eq_some_iff {loc : Location} {content : ByteArray} :
    tree.fileAt? loc = some content ↔ tree.entry? loc = some (.file content) := by
  rw [fileAt?]
  cases tree.entry? loc with
  | none => simp
  | some e => cases e <;> simp

theorem fileAt?_congr {tree' : FileTree} {loc : Location} (h : tree'.entry? loc = tree.entry? loc) :
    tree'.fileAt? loc = tree.fileAt? loc := by rw [fileAt?, h, fileAt?]

/-- All files are text. -/
def Textual (tree : FileTree) : Prop :=
  ∀ loc content, tree.fileAt? loc = some content → (String.fromUTF8? content).isSome = true

theorem Textual.empty : FileTree.empty.Textual := by
  intro loc content h
  rw [fileAt?, entry?] at h
  split at h <;> simp_all [FileTree.empty]

theorem fromUTF8?_toUTF8 (text : String) : String.fromUTF8? text.toUTF8 = some text := by
  rw [String.fromUTF8?]
  exact dif_pos text.isValidUTF8

/-- A path without `..` reads what its location holds. -/
theorem WellFormed.readText?_plain (hw : tree.WellFormed) {p : Path} (hp : p.isAbsolute = true)
    (hup : .up ∉ p.steps) (hend : EndsInStep p) :
    tree.readText? p = (tree.fileAt? (plainLocation p)).bind String.fromUTF8? := by
  rw [readText?, hw.find?_plain hp hup hend, fileAt?]
  cases tree.entry? (plainLocation p) with
  | none => rfl
  | some e => cases e <;> rfl

/-- In a tree of texts every file can be read. -/
theorem Textual.isSome_readText? (ht : tree.Textual) {p : Path} :
    (tree.readText? p).isSome = tree.isFile p := by
  rw [readText?, isFile]
  cases hf : tree.find? p with
  | none => rfl
  | some e =>
    cases e with
    | directory => rfl
    | file content =>
      obtain ⟨l, _, hl⟩ := Option.bind_eq_some_iff.mp hf
      exact ht l content (fileAt?_eq_some_iff.mpr hl)

/-! ## One entry set -/

theorem entry?_set {loc : Location} (hl : loc ≠ []) (e : Entry) (l : Location) :
    entry? (tree.set loc e) l = if l = loc then some e else tree.entry? l := by
  by_cases hn : l = []
  · rw [if_neg (by rw [hn]; exact Ne.symm hl), entry?, entry?, if_pos hn, if_pos hn]
  · rw [entry?_of_ne_nil hn, entry?_of_ne_nil hn, set, List.lookup_append]
    change ((tree.entries.filter fun x => decide (x.1 ≠ loc)).lookup l).or _ = _
    rw [lookup_filter_key (fun k => decide (k ≠ loc))]
    by_cases he : l = loc
    · subst he
      simp
    · simp [he, List.lookup_cons, beq_false_of_ne he]

theorem mem_entries_set {loc l : Location} {e x : Entry} (h : (l, x) ∈ (tree.set loc e).entries) :
    (l, x) ∈ tree.entries ∨ l = loc := by
  rw [set, List.mem_append, List.mem_filter, List.mem_singleton] at h
  rcases h with h | h
  · exact Or.inl h.1
  · exact Or.inr (Prod.mk.inj h).1

/-- A tree stays well formed if an entry is set in a directory, and not in the place of one
unless it is one. -/
theorem WellFormed.set (hw : tree.WellFormed) {loc : Location} (hl : loc ≠ [])
    (hn : ∀ n ∈ loc, IsFileName n) (hd : tree.isDirectoryAt loc.dropLast = true) {e : Entry}
    (he : e = .directory ∨ tree.isDirectoryAt loc = false) : (tree.set loc e).WellFormed := by
  have hkeep : ∀ l, tree.isDirectoryAt l = true → (tree.set loc e).isDirectoryAt l = true := by
    intro l h
    rw [isDirectoryAt_iff, entry?_set hl]
    by_cases hll : l = loc
    · rw [if_pos hll]
      rcases he with rfl | he
      · rfl
      · rw [hll, he] at h
        simp at h
    · rw [if_neg hll]
      exact isDirectoryAt_iff.mp h
  constructor
  · intro l x hm
    rcases mem_entries_set hm with h | rfl
    · exact hw.named l x h
    · exact hn
  · intro l x hm
    rcases mem_entries_set hm with h | rfl
    · exact hkeep _ (hw.nested l x h)
    · exact hkeep _ hd

/-! ## Writing -/

theorem mkdirAt_spec : ∀ {rest above : Location} {tree : FileTree}, tree.WellFormed →
    (∀ n ∈ above ++ rest, IsFileName n) → tree.isDirectoryAt above = true →
      (tree.mkdirAt above rest).WellFormed ∧
        ∀ loc, (tree.mkdirAt above rest).fileAt? loc = tree.fileAt? loc := by
  intro rest
  induction rest with
  | nil => intro above tree hw _ _; exact ⟨hw, fun _ => rfl⟩
  | cons name rest ih =>
    intro above tree hw hn hd
    have hne : above ++ [name] ≠ [] := by simp
    rw [List.append_cons] at hn
    have hnames : ∀ n ∈ above ++ [name], IsFileName n := fun n hm =>
      hn n (List.mem_append_left _ hm)
    rw [mkdirAt]
    cases he : tree.entry? (above ++ [name]) with
    | none =>
      have hw' : (tree.set (above ++ [name]) .directory).WellFormed :=
        hw.set hne hnames (by rwa [List.dropLast_concat]) (Or.inl rfl)
      have hd' : (tree.set (above ++ [name]) .directory).isDirectoryAt (above ++ [name]) = true := by
        rw [isDirectoryAt_iff, entry?_set hne, if_pos rfl]
      obtain ⟨hwf, hfile⟩ := ih hw' hn hd'
      refine ⟨hwf, fun loc => (hfile loc).trans ?_⟩
      rw [fileAt?, entry?_set hne]
      by_cases hl : loc = above ++ [name]
      · rw [if_pos hl, hl, fileAt?, he]
      · rw [if_neg hl, fileAt?]
    | some e =>
      cases e with
      | file content =>
        exact ⟨hw, fun _ => rfl⟩
      | directory =>
        exact ih hw hn (isDirectoryAt_iff.mpr he)

/-- What becomes of a tree when a file is written: directories are made, and at most one file
gets new bytes. -/
theorem write_cases (hw : tree.WellFormed) {p : Path} (hn : ∀ n ∈ plainLocation p, IsFileName n)
    (content : ByteArray) :
    ∃ tree' : FileTree, tree'.WellFormed ∧ (∀ loc, tree'.fileAt? loc = tree.fileAt? loc) ∧
      (tree.write p content = tree' ∨
        plainLocation p ≠ [] ∧ tree.write p content = tree'.set (plainLocation p) (.file content) ∧
          tree'.isDirectoryAt (plainLocation p).dropLast = true ∧
            tree'.isDirectoryAt (plainLocation p) = false) := by
  have hinit : ∀ n ∈ [] ++ (plainLocation p).dropLast, IsFileName n := fun n hm =>
    hn n (List.dropLast_subset _ hm)
  obtain ⟨hwf, hfile⟩ := mkdirAt_spec hw hinit isDirectoryAt_nil
  refine ⟨tree.mkdirAt [] (plainLocation p).dropLast, hwf, hfile, ?_⟩
  rw [write]
  split
  · exact Or.inl rfl
  · rename_i h
    obtain ⟨h₁, h₂⟩ := not_or.mp h
    refine Or.inr ⟨?_, rfl, by simpa using h₂, by simpa using h₁⟩
    intro e
    rw [e] at h₁
    exact h₁ isDirectoryAt_nil

theorem WellFormed.write (hw : tree.WellFormed) {p : Path}
    (hn : ∀ n ∈ plainLocation p, IsFileName n) (content : ByteArray) :
    (tree.write p content).WellFormed := by
  obtain ⟨tree', hw', _, h | ⟨hne, h, hd, hnot⟩⟩ := write_cases hw hn content
  · rwa [h]
  · rw [h]
    exact hw'.set hne hn hd (Or.inr hnot)

/-- **Writing one file leaves the others.** -/
theorem fileAt?_write_of_ne (hw : tree.WellFormed) {p : Path}
    (hn : ∀ n ∈ plainLocation p, IsFileName n) (content : ByteArray) {loc : Location}
    (hl : loc ≠ plainLocation p) : (tree.write p content).fileAt? loc = tree.fileAt? loc := by
  obtain ⟨tree', _, hfile, h | ⟨hne, h, _, _⟩⟩ := write_cases hw hn content
  · rw [h, hfile]
  · rw [h, ← hfile loc]
    exact fileAt?_congr (by rw [entry?_set hne, if_neg hl])

theorem Textual.write (ht : tree.Textual) (hw : tree.WellFormed) {p : Path}
    (hn : ∀ n ∈ plainLocation p, IsFileName n) (text : String) :
    (tree.write p text.toUTF8).Textual := by
  intro loc content hc
  obtain ⟨tree', _, hfile, h | ⟨hne, h, _, _⟩⟩ := write_cases hw hn text.toUTF8
  · rw [h, hfile] at hc
    exact ht loc content hc
  · rw [h, fileAt?_eq_some_iff, entry?_set hne] at hc
    by_cases hl : loc = plainLocation p
    · rw [if_pos hl, Option.some.injEq, Entry.file.injEq] at hc
      rw [← hc, fromUTF8?_toUTF8]
      rfl
    · rw [if_neg hl, ← fileAt?_eq_some_iff, hfile] at hc
      exact ht loc content hc

/-! ## Deleting -/

theorem entry?_delete (p : Path) (loc : Location) :
    entry? (tree.delete p) loc =
      if loc ≠ [] ∧ plainLocation p <+: loc then none else tree.entry? loc := by
  by_cases hn : loc = []
  · simp [FileTree.entry?, hn]
  · have h := lookup_filter_key (fun k => decide ¬(plainLocation p).isPrefixOf k = true) loc tree.entries
    rw [entry?_of_ne_nil hn, entry?_of_ne_nil hn]
    refine h.trans ?_
    by_cases hp : plainLocation p <+: loc
    · simp [hn, hp]
    · simp [hp]

theorem WellFormed.delete (hw : tree.WellFormed) (p : Path) : (tree.delete p).WellFormed := by
  have hmem : ∀ {l x}, (l, x) ∈ (tree.delete p).entries → (l, x) ∈ tree.entries ∧ ¬plainLocation p <+: l := by
    intro l x h
    rw [FileTree.delete, List.mem_filter] at h
    exact ⟨h.1, by simpa using h.2⟩
  constructor
  · intro l x h
    exact hw.named l x (hmem h).1
  · intro l x h
    obtain ⟨hm, hp⟩ := hmem h
    rw [isDirectoryAt_iff, entry?_delete, if_neg]
    · exact isDirectoryAt_iff.mp (hw.nested l x hm)
    · rintro ⟨_, hpre⟩
      exact hp (hpre.trans (List.dropLast_prefix l))

/-- **Deleting one file leaves the others.** -/
theorem fileAt?_delete_of_ne (hw : tree.WellFormed) {p : Path} {content : ByteArray}
    (hf : tree.fileAt? (plainLocation p) = some content) {loc : Location}
    (hl : loc ≠ plainLocation p) : (tree.delete p).fileAt? loc = tree.fileAt? loc := by
  by_cases hp : loc ≠ [] ∧ plainLocation p <+: loc
  · -- nothing lies below a file
    obtain ⟨rest, rfl⟩ := hp.2
    have hrest : rest ≠ [] := by
      rintro rfl
      simp at hl
    have hnone : tree.entry? (plainLocation p ++ rest) = none := by
      cases he : tree.entry? (plainLocation p ++ rest) with
      | none => rfl
      | some e =>
        have hd := hw.isDirectoryAt_above hrest he
        rw [isDirectoryAt_iff, fileAt?_eq_some_iff.mp hf] at hd
        simp at hd
    rw [fileAt?, entry?_delete, if_pos hp, fileAt?, hnone]
  · exact fileAt?_congr (by rw [entry?_delete, if_neg hp])

theorem Textual.delete (ht : tree.Textual) (p : Path) : (tree.delete p).Textual := by
  intro loc content hc
  rw [fileAt?_eq_some_iff, entry?_delete] at hc
  split at hc
  · simp at hc
  · exact ht loc content (fileAt?_eq_some_iff.mpr hc)

end SiteAssist.FileTree
