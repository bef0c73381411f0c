import SiteAssist.Proofs.Cache.Effect
import SiteAssist.Proofs.FileTree.Change

/-!
# A cache kept up to date

Files are written and deleted, and a cache is told of it, late or early, more than once or wrongly.
This file says when the cache nevertheless comes to hold what a scan of the tree as it is now would
give.

* `entry?_told`: an event changes **the entry of its own path only**, and only if the pattern accepts
  the path.
* `entry?_populate`: a scan gives an entry to **each readable file that is accepted**.
* `entry?_follow`: a cache that follows what happens agrees with a scan of the last tree, if **for
  every file the last that happens is an event, and a true one** (`Settled`).

Paths below the root have to be spelled with plain names (`Spelled`).  A pattern is matched against
the text of a path, while entries go by its steps, so that for another spelling of a file the two
disagree.
-/

namespace SiteAssist

open SiteAssist.Path (IsFileName extend same_iff same_comm same_congr)
open FilePattern (base base_same isAbsolute_base)

/-! ## What happens -/

/-- What happens to a file, or is told of one. -/
inductive Happening where
  | written (p : Path) (text : String)
  | deleted (p : Path)
  | told (p : Path) (event : FileEvent)

/-- A path is a spelling of the root led on by names. -/
def Spelled (root p : Path) : Prop :=
  ∃ b : Path, ∃ ns, b.isAbsolute = true ∧ b.same root = true ∧ (∀ n ∈ ns, IsFileName n) ∧
    p = b.extend ns

namespace Happening

/-- The file that it happens to. -/
def path : Happening → Path
  | written p _ => p
  | deleted p => p
  | told p _ => p

/-- The tree afterwards. Only regular files are deleted. -/
def tree (before : FileTree) : Happening → FileTree
  | written p text => before.write p text.toUTF8
  | deleted p => if before.isFile p then before.delete p else before
  | told _ _ => before

/-- Files change below the root and by paths without `..`, and what is told of a path below the
root is told of a spelling of it with plain names. -/
def Allowed (root : Path) : Happening → Prop
  | written p _ => p.under root = true ∧ .up ∉ p.steps
  | deleted p => p.under root = true ∧ .up ∉ p.steps
  | told p _ => p.under root = true → Spelled root p

/-- It is an event that says what is the case: a file is deleted, or it is there. -/
def Truthful (last : FileTree) : Happening → Prop
  | told p event => event = .deleted ↔ last.isFile p = false
  | _ => False

instance (last : FileTree) (h : Happening) : Decidable (h.Truthful last) :=
  match h with
  | told _ _ => inferInstanceAs (Decidable (_ ↔ _))
  | written _ _ => .isFalse id
  | deleted _ => .isFalse id

end Happening

/-- The tree after all that happens. -/
def treeAfter (tree : FileTree) (hs : List Happening) : FileTree := hs.foldl Happening.tree tree

theorem treeAfter_append (tree : FileTree) (before after : List Happening) :
    treeAfter tree (before ++ after) = treeAfter (treeAfter tree before) after := List.foldl_append

/-- For each file below the root the last that happens is an event, and a true one. -/
def Settled (root : Path) (last : FileTree) (hs : List Happening) : Prop :=
  ∀ before h after, hs = before ++ h :: after → h.path.under root = true →
    (∀ x ∈ after, x.path.same h.path = false) → h.Truthful last

theorem settled_cons {root : Path} {last : FileTree} {h : Happening} {hs : List Happening} :
    Settled root last (h :: hs) ↔
      (h.path.under root = true → (∀ x ∈ hs, x.path.same h.path = false) → h.Truthful last) ∧
        Settled root last hs := by
  constructor
  · intro hall
    refine ⟨hall [] h hs rfl, fun before x after e => ?_⟩
    exact hall (h :: before) x after (by rw [e, List.cons_append])
  · rintro ⟨hhead, htail⟩ before x after e
    cases before with
    | nil =>
      rw [List.nil_append, List.cons.injEq] at e
      obtain ⟨rfl, rfl⟩ := e
      exact hhead
    | cons y before =>
      rw [List.cons_append, List.cons.injEq] at e
      exact htail before x after e.2

instance decidableSettled (root : Path) (last : FileTree) :
    ∀ hs : List Happening, Decidable (Settled root last hs)
  | [] => .isTrue fun before _ _ e => by simp at e
  | _ :: hs =>
    have := decidableSettled root last hs
    decidable_of_iff _ settled_cons.symm

variable {tree : FileTree} {root : Path}

/-- A path below the root, as a scan would spell it. -/
def Place (root q : Path) : Prop :=
  ∃ ns, ns ≠ [] ∧ (∀ n ∈ ns, IsFileName n) ∧ q = (base root).extend ns

theorem isAbsolute_of_under {p : Path} (hr : root.isAbsolute = true) (h : p.under root = true) :
    p.isAbsolute = true := by
  rw [Path.under_iff, Path.steps_of_isAbsolute hr] at h
  obtain ⟨rest, hrest⟩ := h
  exact Path.isAbsolute_of_steps hrest.symm

namespace Place

variable {q : Path}

theorem isAbsolute (h : Place root q) : q.isAbsolute = true := by
  obtain ⟨ns, _, hn, rfl⟩ := h
  exact Path.isAbsolute_extend isAbsolute_base hn

theorem endsInStep (h : Place root q) : FileTree.EndsInStep q := by
  obtain ⟨ns, hne, hn, rfl⟩ := h
  exact FileTree.endsInStep_extend isAbsolute_base hne hn

theorem under (h : Place root q) (hr : root.isAbsolute = true) : q.under root = true := by
  obtain ⟨ns, _, hn, rfl⟩ := h
  exact Path.under_extend isAbsolute_base (base_same hr) hn

theorem steps (h : Place root q) (hr : root.isAbsolute = true) :
    ∃ ns : List String, q.steps = root.steps ++ ns.map .name := by
  obtain ⟨ns, _, hn, rfl⟩ := h
  exact ⟨ns, by rw [Path.steps_extend isAbsolute_base hn, same_iff.mp (base_same hr)]⟩

/-- A scan spells each path in one way. -/
theorem eq_of_same (h : Place root q) {r : Path} (hr : Place root r) (hs : q.same r = true) :
    q = r := by
  obtain ⟨ns, _, hn, rfl⟩ := h
  obtain ⟨ms, _, hm, rfl⟩ := hr
  rw [(Path.extend_same_iff isAbsolute_base isAbsolute_base (same_iff.mpr rfl) hn hm).mp hs]

end Place

/-! ## The tree -/

theorem Happening.tree_wellFormed {h : Happening} (hr : root.isAbsolute = true)
    (ha : h.Allowed root) (hw : tree.WellFormed) (ht : tree.Textual) :
    (h.tree tree).WellFormed ∧ (h.tree tree).Textual := by
  cases h with
  | written p text =>
    have hn := (FileTree.steps_of_plain (isAbsolute_of_under hr ha.1) ha.2).2
    exact ⟨hw.write hn _, ht.write hw hn text⟩
  | deleted p =>
    rw [Happening.tree]
    split
    · exact ⟨hw.delete p, ht.delete p⟩
    · exact ⟨hw, ht⟩
  | told p event => exact ⟨hw, ht⟩

/-- What happens to one file leaves the others. -/
theorem Happening.fileAt?_tree {h : Happening} (hr : root.isAbsolute = true) (ha : h.Allowed root)
    (hw : tree.WellFormed) {loc : Location} (hl : loc ≠ FileTree.plainLocation h.path) :
    (h.tree tree).fileAt? loc = tree.fileAt? loc := by
  cases h with
  | written p text =>
    have hn := (FileTree.steps_of_plain (isAbsolute_of_under hr ha.1) ha.2).2
    exact FileTree.fileAt?_write_of_ne hw hn _ hl
  | deleted p =>
    rw [Happening.tree]
    split
    · rename_i hfile
      have hp := isAbsolute_of_under hr ha.1
      obtain ⟨c, hc⟩ := FileTree.isFile_iff.mp hfile
      rw [hw.find?_plain hp ha.2 (FileTree.endsInStep_of_isFile hp hfile),
        ← FileTree.fileAt?_eq_some_iff] at hc
      exact FileTree.fileAt?_delete_of_ne hw hc hl
    · rfl
  | told p event => rfl

/-- A place that nothing happens to reads as before. -/
theorem readText?_tree {h : Happening} (hr : root.isAbsolute = true) (ha : h.Allowed root)
    (hw : tree.WellFormed) (ht : tree.Textual) {q : Path} (hq : Place root q)
    (hne : h.path.same q = false) : (h.tree tree).readText? q = tree.readText? q := by
  -- a file changes by a path without `..`, below the root, so that there is no `..` in the root
  have hchange : h.path.under root = true ∧ .up ∉ h.path.steps →
      (h.tree tree).readText? q = tree.readText? q := by
    rintro ⟨hunder, hup⟩
    have hp := isAbsolute_of_under hr hunder
    have hq' := hq.isAbsolute
    rw [Path.under_iff] at hunder
    obtain ⟨ns, hns⟩ := hq.steps hr
    have hupq : .up ∉ q.steps := by
      rw [hns, List.mem_append, not_or]
      exact ⟨fun hm => hup (hunder.subset hm), by simp⟩
    have hloc : FileTree.plainLocation q ≠ FileTree.plainLocation h.path := by
      intro e
      rw [Bool.eq_false_iff, ne_eq, same_iff] at hne
      exact hne (by rw [(FileTree.steps_of_plain hp hup).1, (FileTree.steps_of_plain hq' hupq).1, e])
    rw [(h.tree_wellFormed hr ha hw ht).1.readText?_plain hq' hupq hq.endsInStep,
      hw.readText?_plain hq' hupq hq.endsInStep, h.fileAt?_tree hr ha hw hloc]
  cases h with
  | written p text => exact hchange ha
  | deleted p => exact hchange ha
  | told p event => rfl

theorem treeAfter_spec (hr : root.isAbsolute = true) : ∀ {hs : List Happening} {tree : FileTree},
    (∀ h ∈ hs, h.Allowed root) → tree.WellFormed → tree.Textual →
      ((treeAfter tree hs).WellFormed ∧ (treeAfter tree hs).Textual) ∧
        ∀ {q : Path}, Place root q → (∀ h ∈ hs, h.path.same q = false) →
          (treeAfter tree hs).readText? q = tree.readText? q := by
  intro hs
  induction hs with
  | nil => intro tree _ hw ht; exact ⟨⟨hw, ht⟩, fun _ _ => rfl⟩
  | cons h hs ih =>
    intro tree hall hw ht
    have ha := hall h List.mem_cons_self
    obtain ⟨hw', ht'⟩ := h.tree_wellFormed hr ha hw ht
    obtain ⟨hgood, hread⟩ := ih (fun x hx => hall x (List.mem_cons_of_mem h hx)) hw' ht'
    refine ⟨hgood, fun {q} hq hne => ?_⟩
    exact (hread hq fun x hx => hne x (List.mem_cons_of_mem h hx)).trans
      (readText?_tree hr ha hw ht hq (hne h List.mem_cons_self))

/-! ## The entries of a cache -/

namespace FileCache

variable {α : Type}

/-- An extractor that never breaks off and reads no more of a path than its steps. -/
structure Steady (extract : CacheStatus → Path → String → Extraction α) : Prop where
  whole : ∀ p text, extract .populating p text ≠ .broken
  bySteps : ∀ p q text, p.same q = true → extract .populating p text = extract .populating q text

/-- The items of a text at a path. -/
def itemsOf (c : FileCache α) (p : Path) (text : String) : List α :=
  match c.extract .populating p text with
  | .items items => items
  | _ => []

/-- The entry of a path among some. -/
def entryIn? (entries : List (Path × List α)) (q : Path) : Option (List α) :=
  (entries.find? (·.1.same q)).map Prod.snd

theorem entry?_congr (c : FileCache α) {q r : Path} (h : q.same r = true) :
    c.entry? q = c.entry? r := by
  have : (fun e : Path × List α => e.1.same q) = fun e => e.1.same r :=
    funext fun e => same_congr h
  rw [FileCache.entry?, this, FileCache.entry?]

theorem entryIn?_putEntry (p q : Path) (items : List α) (entries : List (Path × List α)) :
    entryIn? (putEntry p items entries) q =
      if p.same q = true then some items else entryIn? entries q := by
  induction entries with
  | nil =>
    rw [putEntry, entryIn?, List.find?_cons]
    cases p.same q <;> rfl
  | cons e entries ih =>
    obtain ⟨x, old⟩ := e
    rw [putEntry]
    by_cases hx : x.same p = true
    · have hpx : x.same q = p.same q := by
        rw [same_comm x, same_comm p, same_congr hx]
      rw [if_pos hx, entryIn?, entryIn?, List.find?_cons, List.find?_cons]
      simp only [hpx]
      cases p.same q <;> rfl
    · rw [if_neg hx, entryIn?, List.find?_cons, entryIn?, List.find?_cons]
      cases hxq : x.same q with
      | true =>
        have : ¬p.same q = true := by
          rw [same_iff] at hxq hx ⊢
          exact fun e => hx (hxq.trans e.symm)
        rw [if_neg this]
      | false => exact ih

theorem entryIn?_filter (p q : Path) (entries : List (Path × List α)) :
    entryIn? (entries.filter fun e => !e.1.same p) q =
      if p.same q = true then none else entryIn? entries q := by
  have hfind : ∀ es : List (Path × List α), (es.filter fun e => !e.1.same p).find? (·.1.same q) =
      if p.same q = true then none else es.find? (·.1.same q) := by
    intro es
    rw [List.find?_filter]
    by_cases hpq : p.same q = true
    · rw [if_pos hpq, List.find?_eq_none]
      intro e _
      rw [same_congr hpq]
      simp
    · rw [if_neg hpq]
      congr 1
      funext e
      cases he : e.1.same q with
      | false => simp
      | true =>
        have : e.1.same p = false := by
          rw [Bool.eq_false_iff, ne_eq, same_iff]
          rw [same_iff] at he hpq
          exact fun h => hpq (h.symm.trans he)
        simp [this]
  rw [entryIn?, hfind]
  split <;> rfl

/-- The cache after an event for a path, if it watches it. -/
def told (c : FileCache α) (root : Path) (tree : FileTree) (p : Path) (event : FileEvent) :
    FileCache α :=
  if c.watches root p then (c.apply tree p event).1 else c

theorem extractItems?_of_steady {c : FileCache α} (hs : Steady c.extract) (p : Path)
    (text : String) : c.began.extractItems? p text = some (c.itemsOf p text) := by
  rw [extractItems?, status_began, itemsOf]
  have hb := hs.whole p text
  cases he : c.extract .populating p text with
  | items xs => simp [began, he]
  | malformed => simp [began, he]
  | broken => exact absurd he hb

theorem entry?_refresh {c : FileCache α} (hs : Steady c.extract) (tree : FileTree) (p q : Path) :
    entry? (c.refresh tree p).1 q =
      match tree.readText? p with
      | some text => if p.same q = true then some (c.itemsOf p text) else c.entry? q
      | none => c.entry? q := by
  rw [refresh]
  cases ht : tree.readText? p with
  | none => rfl
  | some text =>
    simp only [extractItems?_of_steady hs]
    exact entryIn?_putEntry p q _ _

theorem entry?_remove (c : FileCache α) (p q : Path) :
    entry? (c.remove p) q = if p.same q = true then none else c.entry? q := by
  rw [remove]
  split
  · rename_i hn
    by_cases hpq : p.same q = true
    · rw [if_pos hpq, ← c.entry?_congr hpq, Option.isNone_iff_eq_none.mp hn]
    · rw [if_neg hpq]
  · exact entryIn?_filter p q _

/-- **An event changes the entry of its own path only.** -/
theorem entry?_told {c : FileCache α} (hs : Steady c.extract) (root : Path) (tree : FileTree)
    (p q : Path) (event : FileEvent) :
    entry? (c.told root tree p event) q =
      if c.watches root p = true ∧ p.same q = true then
        if event = .deleted then none
        else match tree.readText? p with
          | some text => some (c.itemsOf p text)
          | none => c.entry? q
      else c.entry? q := by
  rw [told]
  by_cases hw : c.watches root p = true
  · rw [if_pos hw]
    by_cases hpq : p.same q = true
    · rw [if_pos ⟨hw, hpq⟩]
      cases event with
      | deleted => exact (entry?_remove c p q).trans (if_pos hpq)
      | created | changed =>
        refine (entry?_refresh hs tree p q).trans ?_
        simp only [hpq, if_true]
        rfl
    · rw [if_neg fun h => hpq h.2]
      cases event with
      | deleted => exact (entry?_remove c p q).trans (if_neg hpq)
      | created | changed =>
        refine (entry?_refresh hs tree p q).trans ?_
        simp only [hpq]
        split <;> rfl
  · rw [if_neg hw, if_neg fun h => hw h.1]

theorem told_fixed (c : FileCache α) (root : Path) (tree : FileTree) (p : Path)
    (event : FileEvent) :
    (c.told root tree p event).pattern = c.pattern ∧
      (c.told root tree p event).extract = c.extract := by
  have hrefresh : (c.refresh tree p).1.pattern = c.pattern ∧
      (c.refresh tree p).1.extract = c.extract := by
    rw [refresh]
    split
    · exact ⟨rfl, rfl⟩
    · dsimp only
      split <;> exact ⟨rfl, rfl⟩
  have hremove : (c.remove p).pattern = c.pattern ∧ (c.remove p).extract = c.extract := by
    rw [remove]
    split <;> exact ⟨rfl, rfl⟩
  rw [told]
  split
  · cases event with
    | deleted => exact hremove
    | created | changed => exact hrefresh
  · exact ⟨rfl, rfl⟩

/-! ## A scan -/

theorem populate_fixed (c : FileCache α) (tree : FileTree) (root : Path) :
    (c.populate tree root).1.pattern = c.pattern ∧
      (c.populate tree root).1.extract = c.extract := by
  rw [populate]
  split <;> exact ⟨rfl, rfl⟩

/-- A scan finds the places that are watched and can be read. -/
theorem mem_files_iff_place {c : FileCache α} (hw : tree.WellFormed) (hr : root.isAbsolute = true)
    (hp : c.pattern.IsPlain) {q : Path} :
    q ∈ (c.pattern.files tree root).filter (readable tree) ↔
      Place root q ∧ c.watches root q = true ∧ (tree.readText? q).isSome = true := by
  rw [List.mem_filter, FilePattern.mem_files_iff hw hr hp]
  constructor
  · rintro ⟨⟨ns, hne, hn, hq, _, hacc⟩, hread⟩
    exact ⟨⟨ns, hne, hn, hq⟩, hacc, hread⟩
  · rintro ⟨⟨ns, hne, hn, hq⟩, hacc, hread⟩
    refine ⟨⟨ns, hne, hn, hq, ?_, hacc⟩, hread⟩
    rw [FileTree.readText?] at hread
    rw [FileTree.isFile]
    split at hread
    · rfl
    · simp at hread

theorem itemsOf_of_extracted {c : FileCache α} {q : Path} {items : List α}
    (h : Extracted c.extract tree q items) :
    ∃ text, tree.readText? q = some text ∧ items = c.itemsOf q text := by
  obtain ⟨text, ht, h | ⟨h, rfl⟩⟩ := h
  · exact ⟨text, ht, by rw [itemsOf, h]⟩
  · exact ⟨text, ht, by rw [itemsOf, h]⟩

/-- A `populate` that comes to its end keeps one entry of each readable file. -/
theorem exists_snapshot_populate {c : FileCache α} (hs : Steady c.extract) (tree : FileTree)
    (root : Path) :
    ∃ entries : List (Path × List α), (c.populate tree root).1.snapshot = .ofEntries entries ∧
      entries.map Prod.fst = (c.pattern.files tree root).filter (readable tree) ∧
        ∀ e ∈ entries, Extracted c.extract tree e.1 e.2 := by
  have h := effect_populate c tree root
  generalize (c.populate tree root).1 = c', (c.populate tree root).2 = out at h ⊢
  cases h with
  | populated hkeys hall => exact ⟨_, rfl, hkeys, hall⟩
  | populateBroken _ hb =>
    obtain ⟨text, _, he⟩ := hb
    exact absurd he (hs.whole _ text)

theorem exists_entries_populate {c : FileCache α} (hs : Steady c.extract) (tree : FileTree)
    (root : Path) :
    ∃ entries : List (Path × List α), (∀ q, entry? (c.populate tree root).1 q = entryIn? entries q) ∧
      entries.map Prod.fst = (c.pattern.files tree root).filter (readable tree) ∧
        ∀ e ∈ entries, Extracted c.extract tree e.1 e.2 := by
  obtain ⟨entries, hsnap, hkeys, hall⟩ := exists_snapshot_populate hs tree root
  exact ⟨entries, fun q => by rw [FileCache.entry?, hsnap]; rfl, hkeys, hall⟩

/-- Every entry of a scan is that of a place that is watched. -/
theorem place_of_entry?_populate {c : FileCache α} (hs : Steady c.extract)
    (hp : c.pattern.IsPlain) (hw : tree.WellFormed) (hr : root.isAbsolute = true) {q : Path}
    {items : List α} (h : entry? (c.populate tree root).1 q = some items) :
    ∃ r, Place root r ∧ c.watches root r = true ∧ r.same q = true ∧
      ∃ text, tree.readText? r = some text ∧ items = c.itemsOf r text := by
  obtain ⟨entries, hentry, hkeys, hall⟩ := exists_entries_populate hs tree root
  rw [hentry, entryIn?, Option.map_eq_some_iff] at h
  obtain ⟨e, he, rfl⟩ := h
  have hmem := List.mem_of_find?_eq_some he
  have hkey : e.1 ∈ (c.pattern.files tree root).filter (readable tree) := by
    rw [← hkeys]
    exact List.mem_map_of_mem hmem
  obtain ⟨hplace, hwatch, _⟩ := (mem_files_iff_place hw hr hp).mp hkey
  have hsame : e.1.same q = true := by simpa using List.find?_some he
  exact ⟨e.1, hplace, hwatch, hsame, itemsOf_of_extracted (hall e hmem)⟩

/-- **A scan gives an entry to each file that is watched.** -/
theorem entry?_populate {c : FileCache α} (hs : Steady c.extract) (hp : c.pattern.IsPlain)
    (hw : tree.WellFormed) (hr : root.isAbsolute = true) {q : Path} (hq : Place root q)
    (hwatch : c.watches root q = true) :
    entry? (c.populate tree root).1 q = (tree.readText? q).map (c.itemsOf q) := by
  cases ht : tree.readText? q with
  | none =>
    cases h : entry? (c.populate tree root).1 q with
    | none => rfl
    | some items =>
      obtain ⟨r, hplace, _, hsame, text, htext, _⟩ := place_of_entry?_populate hs hp hw hr h
      rw [hplace.eq_of_same hq hsame, ht] at htext
      simp at htext
  | some text =>
    obtain ⟨entries, hentry, hkeys, _⟩ := exists_entries_populate hs tree root
    have hkey : q ∈ entries.map Prod.fst := by
      rw [hkeys, mem_files_iff_place hw hr hp, ht]
      exact ⟨hq, hwatch, rfl⟩
    obtain ⟨e, he, rfl⟩ := List.mem_map.mp hkey
    cases h : entry? (c.populate tree root).1 e.1 with
    | none =>
      rw [hentry, entryIn?, Option.map_eq_none_iff, List.find?_eq_none] at h
      exact absurd (same_iff.mpr rfl) (h e he)
    | some items =>
      obtain ⟨r, hplace, _, hsame, text', htext, rfl⟩ := place_of_entry?_populate hs hp hw hr h
      rw [hplace.eq_of_same hq hsame] at htext ⊢
      rw [ht, Option.some.injEq] at htext
      rw [← htext]
      rfl

/-! ## Following what happens -/

/-- The cache after one thing that happens. -/
def after (c : FileCache α) (root : Path) (tree : FileTree) : Happening → FileCache α
  | .told p event => c.told root tree p event
  | _ => c

/-- The cache after all that happens, from a tree on. -/
def follow (root : Path) : FileCache α → FileTree → List Happening → FileCache α
  | c, _, [] => c
  | c, tree, h :: hs => follow root (c.after root tree h) (h.tree tree) hs

theorem after_fixed (c : FileCache α) (root : Path) (tree : FileTree) (h : Happening) :
    (c.after root tree h).pattern = c.pattern ∧ (c.after root tree h).extract = c.extract := by
  cases h with
  | told p event => exact told_fixed c root tree p event
  | written | deleted => exact ⟨rfl, rfl⟩

theorem follow_fixed (root : Path) : ∀ (hs : List Happening) (c : FileCache α) (tree : FileTree),
    (c.follow root tree hs).pattern = c.pattern ∧ (c.follow root tree hs).extract = c.extract := by
  intro hs
  induction hs with
  | nil => intro c tree; exact ⟨rfl, rfl⟩
  | cons h hs ih =>
    intro c tree
    obtain ⟨h₁, h₂⟩ := ih (c.after root tree h) (h.tree tree)
    obtain ⟨h₃, h₄⟩ := c.after_fixed root tree h
    exact ⟨h₁.trans h₃, h₂.trans h₄⟩

theorem follow_append (root : Path) (ys : List Happening) :
    ∀ (xs : List Happening) (c : FileCache α) (tree : FileTree),
      c.follow root tree (xs ++ ys) = (c.follow root tree xs).follow root (treeAfter tree xs) ys := by
  intro xs
  induction xs with
  | nil => intro c tree; rfl
  | cons x xs ih =>
    intro c tree
    exact ih (c.after root tree x) (x.tree tree)

/-- An entry stays as long as nothing happens to its file. -/
theorem entry?_follow_of_ne {q : Path} : ∀ {hs : List Happening} {c : FileCache α}
    {tree : FileTree}, Steady c.extract → (∀ h ∈ hs, h.path.same q = false) →
      entry? (c.follow root tree hs) q = c.entry? q := by
  intro hs
  induction hs with
  | nil => intro c tree _ _; rfl
  | cons h hs ih =>
    intro c tree hsteady hne
    have hsteady' : Steady (c.after root tree h).extract := by
      rwa [(c.after_fixed root tree h).2]
    have hone : entry? (c.after root tree h) q = c.entry? q := by
      cases h with
      | told p event =>
        refine (entry?_told hsteady root tree p q event).trans (if_neg ?_)
        rintro ⟨_, hpq⟩
        have := hne _ List.mem_cons_self
        rw [Happening.path, hpq] at this
        simp at this
      | written | deleted => rfl
    exact (ih hsteady' fun x hx => hne x (List.mem_cons_of_mem h hx)).trans hone

/-- Of what happens, the last that is about a file, if anything is. -/
theorem last_about (q : Path) (hs : List Happening) :
    (∀ h ∈ hs, h.path.same q = false) ∨
      ∃ before h after, hs = before ++ h :: after ∧ h.path.same q = true ∧
        ∀ x ∈ after, x.path.same q = false := by
  induction hs with
  | nil => exact Or.inl (by simp)
  | cons h hs ih =>
    rcases ih with hnone | ⟨before, x, after, rfl, hx, hafter⟩
    · cases hh : h.path.same q with
      | true => exact Or.inr ⟨[], h, hs, rfl, hh, hnone⟩
      | false =>
        refine Or.inl fun x hx => ?_
        rcases List.mem_cons.mp hx with rfl | hx
        · exact hh
        · exact hnone x hx
    · exact Or.inr ⟨h :: before, x, after, rfl, hx, hafter⟩

/-! ## One file under two spellings -/

/-- An event may spell the root in its own way. -/
theorem extend_of_spelled {p q : Path} (hp : Spelled root p) (hq : Place root q)
    (hr : root.isAbsolute = true) (hs : p.same q = true) :
    ∃ b : Path, ∃ ns, b.isAbsolute = true ∧ b.same root = true ∧ ns ≠ [] ∧
      (∀ n ∈ ns, IsFileName n) ∧ p = b.extend ns ∧ q = (base root).extend ns := by
  obtain ⟨b, ms, hb, hbr, hm, rfl⟩ := hp
  obtain ⟨ns, hne, hn, rfl⟩ := hq
  have hbase : b.same (base root) = true := by rwa [same_congr (base_same hr)]
  obtain rfl := (Path.extend_same_iff hb isAbsolute_base hbase hm hn).mp hs
  exact ⟨b, ms, hb, hbr, hne, hm, rfl, rfl⟩

theorem watches_of_spelled (c : FileCache α) {p q : Path} (hp : Spelled root p) (hq : Place root q)
    (hr : root.isAbsolute = true) (hs : p.same q = true) :
    c.watches root p = c.watches root q := by
  obtain ⟨b, ns, hb, hbr, hne, hn, rfl, rfl⟩ := extend_of_spelled hp hq hr hs
  rw [watches, watches, FilePattern.accepts, FilePattern.accepts,
    Path.relativeTo?_extend hb hbr hne hn,
    Path.relativeTo?_extend isAbsolute_base (base_same hr) hne hn]

theorem under_of_watches {c : FileCache α} {p : Path} (h : c.watches root p = true) :
    p.under root = true := by
  by_cases hu : p.under root = true
  · exact hu
  · rw [watches, FilePattern.accepts, Path.relativeTo?, if_pos hu] at h
    simp at h

theorem find?_of_spelled (tree : FileTree) {p q : Path} (hp : Spelled root p) (hq : Place root q)
    (hr : root.isAbsolute = true) (hs : p.same q = true) : tree.find? p = tree.find? q := by
  have hq' := hq.isAbsolute
  have hend := hq.endsInStep
  obtain ⟨b, ns, hb, hbr, hne, hn, rfl, rfl⟩ := extend_of_spelled hp hq hr hs
  exact FileTree.find?_eq_of_steps (Path.isAbsolute_extend hb hn) hq'
    (FileTree.endsInStep_extend hb hne hn) hend (same_iff.mp hs)

/-! ## Agreement -/

/-- A cache with a steady extractor and a plain pattern that does not fit the root itself. -/
structure Regular (c : FileCache α) : Prop where
  steady : Steady c.extract
  plain : c.pattern.IsPlain
  below : ∀ a ∈ c.pattern.alternatives, a.fits [] = false

namespace Regular

variable {c : FileCache α}

theorem of_fixed (hc : Regular c) {c' : FileCache α}
    (h : c'.pattern = c.pattern ∧ c'.extract = c.extract) : Regular c' :=
  ⟨h.2 ▸ hc.steady, h.1 ▸ hc.plain, h.1 ▸ hc.below⟩

theorem populate (hc : Regular c) (tree : FileTree) (root : Path) :
    Regular (c.populate tree root).1 := hc.of_fixed (c.populate_fixed tree root)

theorem follow (hc : Regular c) (root : Path) (tree : FileTree) (hs : List Happening) :
    Regular (c.follow root tree hs) := hc.of_fixed (follow_fixed root hs c tree)

/-- A path that is watched names a place. -/
theorem exists_place (hc : Regular c) {p : Path} (hr : root.isAbsolute = true)
    (hp : p.under root = true → Spelled root p) (hw : c.watches root p = true) :
    ∃ r, Place root r ∧ c.watches root r = true ∧ r.same p = true := by
  obtain ⟨b, ns, hb, hbr, hn, rfl⟩ := hp (under_of_watches hw)
  by_cases hne : ns = []
  · exfalso
    subst hne
    rw [watches, FilePattern.accepts, Path.extend_nil, Path.relativeTo?_same hb hbr,
      List.any_eq_true] at hw
    obtain ⟨a, ha, hfit⟩ := hw
    rw [String.toList_empty, hc.below a ha] at hfit
    simp at hfit
  · have hplace : Place root ((base root).extend ns) := ⟨ns, hne, hn, rfl⟩
    have hbase : b.same (base root) = true := by rwa [same_congr (base_same hr)]
    have hsame : (b.extend ns).same ((base root).extend ns) = true :=
      (Path.extend_same_iff hb isAbsolute_base hbase hn hn).mpr rfl
    refine ⟨_, hplace, ?_, by rwa [same_comm]⟩
    rwa [← watches_of_spelled c ⟨b, ns, hb, hbr, hn, rfl⟩ hplace hr hsame]

end Regular

/-- Every entry is that of a place that the cache watches. -/
def Kept (root : Path) (c : FileCache α) : Prop :=
  ∀ q items, c.entry? q = some items →
    ∃ r, Place root r ∧ c.watches root r = true ∧ r.same q = true

theorem Kept.populate {c : FileCache α} (hc : Regular c) (hr : root.isAbsolute = true)
    (hw : tree.WellFormed) : Kept root (c.populate tree root).1 := by
  intro q items h
  obtain ⟨r, hplace, hwatch, hsame, _⟩ := place_of_entry?_populate hc.steady hc.plain hw hr h
  refine ⟨r, hplace, ?_, hsame⟩
  rwa [watches, (c.populate_fixed tree root).1]

/-- No event adds a file that a scan would not look at. -/
theorem Kept.after {c : FileCache α} (hc : Regular c) (hr : root.isAbsolute = true)
    {h : Happening} (ha : h.Allowed root) (hk : Kept root c) (tree : FileTree) :
    Kept root (c.after root tree h) := by
  cases h with
  | written | deleted => exact hk
  | told p event =>
    intro q items hq
    have hfix := c.told_fixed root tree p event
    have hold : ∃ r, Place root r ∧ c.watches root r = true ∧ r.same q = true := by
      rw [FileCache.after, entry?_told hc.steady] at hq
      split at hq
      · rename_i hpq
        obtain ⟨r, hplace, hwatch, hsame⟩ := hc.exists_place hr ha hpq.1
        exact ⟨r, hplace, hwatch, by rw [← same_congr hpq.2]; exact hsame⟩
      · exact hk q items hq
    obtain ⟨r, hplace, hwatch, hsame⟩ := hold
    refine ⟨r, hplace, ?_, hsame⟩
    rw [watches] at hwatch ⊢
    rwa [FileCache.after, hfix.1]

theorem Kept.follow (hr : root.isAbsolute = true) : ∀ {hs : List Happening} {c : FileCache α}
    {tree : FileTree}, Regular c → (∀ h ∈ hs, h.Allowed root) → Kept root c →
      Kept root (c.follow root tree hs) := by
  intro hs
  induction hs with
  | nil => intro c tree _ _ hk; exact hk
  | cons h hs ih =>
    intro c tree hc hall hk
    have hk' := hk.after hc hr (hall h List.mem_cons_self) tree
    exact ih (hc.of_fixed (c.after_fixed root tree h))
      (fun x hx => hall x (List.mem_cons_of_mem h hx)) hk'

theorem Kept.entry?_eq_none {c : FileCache α} (hk : Kept root c) {q : Path}
    (h : ¬∃ r, Place root r ∧ c.watches root r = true ∧ r.same q = true) : c.entry? q = none := by
  cases he : c.entry? q with
  | none => rfl
  | some items => exact absurd (hk q items he) h

/-- An entry after the last event for its file, a true one. -/
theorem entry?_follow_told {c : FileCache α} (hc : Regular c) (hr : root.isAbsolute = true)
    (hw : tree.WellFormed) (ht : tree.Textual) {hs : List Happening}
    (hall : ∀ h ∈ hs, h.Allowed root) {p q : Path} {event : FileEvent} (hp : Spelled root p)
    (hq : Place root q) (hwatch : c.watches root q = true) (hpq : p.same q = true)
    (hne : ∀ h ∈ hs, h.path.same q = false)
    (htrue : event = .deleted ↔ (treeAfter tree hs).isFile p = false) :
    entry? (c.follow root tree (.told p event :: hs)) q =
      ((treeAfter tree hs).readText? q).map (c.itemsOf q) := by
  obtain ⟨⟨_, ht'⟩, hread⟩ := treeAfter_spec hr hall hw ht
  have hfind := find?_of_spelled (treeAfter tree hs) hp hq hr hpq
  have hreadp : tree.readText? p = (treeAfter tree hs).readText? q := by
    rw [hread hq hne, FileTree.readText?, FileTree.readText?, find?_of_spelled tree hp hq hr hpq]
  have hsome : ((treeAfter tree hs).readText? q).isSome = (treeAfter tree hs).isFile p := by
    rw [ht'.isSome_readText?, FileTree.isFile, FileTree.isFile, hfind]
  have hsteady : Steady (c.told root tree p event).extract := by
    rw [(c.told_fixed root tree p event).2]
    exact hc.steady
  have hentry : entry? (c.follow root tree (.told p event :: hs)) q =
      entry? (c.told root tree p event) q := entry?_follow_of_ne hsteady hne
  rw [hentry, entry?_told hc.steady, watches_of_spelled c hp hq hr hpq, if_pos ⟨hwatch, hpq⟩, hreadp]
  by_cases he : event = .deleted
  · rw [if_pos he]
    rw [htrue.mp he, Option.isSome_eq_false_iff, Option.isNone_iff_eq_none] at hsome
    rw [hsome]
    rfl
  · rw [if_neg he]
    have hfile : (treeAfter tree hs).isFile p = true := by
      rw [← Bool.not_eq_false]
      exact fun h => he (htrue.mpr h)
    rw [hfile, Option.isSome_iff_exists] at hsome
    obtain ⟨text, htext⟩ := hsome
    rw [htext]
    simp only [Option.map_some, Option.some.injEq, itemsOf]
    rw [hc.steady.bySteps p q text hpq]

/-- **A cache that follows what happens agrees with a scan**, once for each file an event, and a
true one, came last. -/
theorem entry?_follow {c : FileCache α} (hc : Regular c) (hr : root.isAbsolute = true)
    (hw : tree.WellFormed) (ht : tree.Textual) {hs : List Happening}
    (hall : ∀ h ∈ hs, h.Allowed root) (hsettled : Settled root (treeAfter tree hs) hs) (q : Path) :
    entry? ((c.populate tree root).1.follow root tree hs) q =
      entry? (c.populate (treeAfter tree hs) root).1 q := by
  have hc₁ := hc.populate tree root
  have hfix := c.populate_fixed tree root
  obtain ⟨⟨hw', ht'⟩, hread⟩ := treeAfter_spec hr hall hw ht
  have hwatches : ∀ {c' : FileCache α}, c'.pattern = c.pattern →
      ∀ r, c'.watches root r = c.watches root r := by
    intro c' hp r
    rw [watches, watches, hp]
  by_cases hplace : ∃ r, Place root r ∧ c.watches root r = true ∧ r.same q = true
  · obtain ⟨r, hr₁, hwatch, hsame⟩ := hplace
    rw [← entry?_congr _ hsame, ← entry?_congr _ hsame,
      entry?_populate hc.steady hc.plain hw' hr hr₁ hwatch]
    rcases last_about r hs with hnone | ⟨before, h, after, rfl, hh, hafter⟩
    · -- nothing happened to the file, and the entry is that of the first scan
      rw [entry?_follow_of_ne hc₁.steady hnone,
        entry?_populate hc.steady hc.plain hw hr hr₁ hwatch, hread hr₁ hnone]
    · -- what comes after the last event leaves the entry, and what comes before does not matter
      have hunder : h.path.under root = true := by
        have := hr₁.under hr
        rwa [Path.under, ← same_iff.mp hh, ← Path.under] at this
      have htrue := hsettled before h after rfl hunder fun x hx => by
        rw [same_congr hh]
        exact hafter x hx
      have hpast : ∀ x ∈ before, x.Allowed root := fun x hx => hall x (List.mem_append_left _ hx)
      have hlast : ∀ x ∈ after, x.Allowed root := fun x hx =>
        hall x (List.mem_append_right _ (List.mem_cons_of_mem h hx))
      have ha : h.Allowed root := hall h (by simp)
      obtain ⟨⟨hw₁, ht₁⟩, _⟩ := treeAfter_spec hr hpast hw ht
      have hfix' := follow_fixed root before (c.populate tree root).1 tree
      have hitems : ((c.populate tree root).1.follow root tree before).itemsOf r = c.itemsOf r := by
        funext text
        rw [itemsOf, itemsOf, hfix'.2, hfix.2]
      rw [treeAfter_append] at htrue ⊢
      cases h with
      | told p event =>
        rw [follow_append, entry?_follow_told (hc₁.follow root tree before) hr hw₁ ht₁ hlast
          (ha hunder) hr₁ (by rwa [hwatches (hfix'.1.trans hfix.1)]) hh hafter htrue, hitems]
        rfl
      | written | deleted => exact htrue.elim
  · -- no place is watched, and neither cache has an entry
    have hfollowed : Kept root ((c.populate tree root).1.follow root tree hs) :=
      Kept.follow hr hc₁ hall (.populate hc hr hw)
    have hscanned : Kept root (c.populate (treeAfter tree hs) root).1 := .populate hc hr hw'
    rw [hfollowed.entry?_eq_none, hscanned.entry?_eq_none]
    · simpa only [hwatches (c.populate_fixed (treeAfter tree hs) root).1] using hplace
    · simpa only [hwatches ((follow_fixed root hs _ tree).1.trans hfix.1)] using hplace

end FileCache

end SiteAssist
