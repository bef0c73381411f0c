import SiteAssist.FilePattern
import SiteAssist.Proofs.Glob.Plain

/-!
# Scanning and matching agree

A file pattern has two uses: `files` scans the tree for what it finds, and `accepts` tells of one
path whether it would be found.  The scan goes through directories from an escaped root, the match
reads the text that is left after the root.

* `mem_files_iff`: **the scan finds the files that are accepted**, each spelled as the root's own
  pieces (`base`) led on by the names below it.
* `pairwise_files`: it finds no file twice.
* `files_agree`: the same for a root that has neither `.` nor `..`, with plainly spelled paths.
-/

namespace SiteAssist.FilePattern

open Glob (Plain Reads Denotes Trail Leads Pattern escape escapedToken collapse walk search)
open SiteAssist.Path (IsFileName extend same_iff)
variable {tree : FileTree} {root : Path}

/-! ## Where a scan starts -/

/-- A text without its trailing separators. -/
def trimmed (s : List Char) : List Char := (s.reverse.dropWhile (· == '/')).reverse

theorem getLast?_trimmed (s : List Char) : (trimmed s).getLast? ≠ some '/' := by
  rw [trimmed, List.getLast?_reverse]
  intro e
  have := List.head?_dropWhile_not (· == '/') s.reverse
  rw [e] at this
  simp at this

theorem exists_trimmed (s : List Char) : ∃ k, s = trimmed s ++ List.replicate k '/' := by
  refine ⟨(s.reverse.takeWhile (· == '/')).length, ?_⟩
  have hsep : ∀ c ∈ s.reverse.takeWhile (· == '/'), c = '/' := by
    intro c hc
    simpa using List.all_eq_true.mp List.all_takeWhile c hc
  calc s = s.reverse.reverse := (List.reverse_reverse s).symm
    _ = (s.reverse.takeWhile (· == '/') ++ s.reverse.dropWhile (· == '/')).reverse := by
      rw [List.takeWhile_append_dropWhile]
    _ = trimmed s ++ List.replicate (s.reverse.takeWhile (· == '/')).length '/' := by
      rw [List.reverse_append, trimmed, ← List.reverse_replicate,
        ← List.eq_replicate_of_mem hsep]

theorem trimmed_append_replicate {s : List Char} (h : s.getLast? ≠ some '/') (k : Nat) :
    trimmed (s ++ List.replicate k '/') = s := by
  rw [trimmed, List.reverse_append, List.reverse_replicate, List.dropWhile_append_of_pos (by simp),
    List.dropWhile_beq_eq_self_of_head?_ne (by rwa [List.head?_reverse]), List.reverse_reverse]

theorem getLast?_escape {s : List Char} (h : s.getLast? ≠ some '/') :
    (escape s).getLast? ≠ some '/' := by
  by_cases hs : s = []
  · subst hs
    simp [escape]
  · rw [← List.dropLast_concat_getLast hs] at h ⊢
    rw [List.getLast?_concat, ne_eq, Option.some.injEq] at h
    rw [Glob.escape_append, List.getLast?_append, escape, List.flatMap_cons, List.flatMap_nil]
    split
    · simp
    · simpa using h

theorem trimmed_escape (s : List Char) : trimmed (escape s) = escape (trimmed s) := by
  have hrep : ∀ k, escape (List.replicate k '/') = List.replicate k '/' := by
    intro k
    induction k with
    | zero => rfl
    | succ k ih =>
      rw [List.replicate_succ, ← List.singleton_append, Glob.escape_append, ih]
      rfl
  obtain ⟨k, hk⟩ := exists_trimmed s
  conv => lhs; rw [hk]
  rw [Glob.escape_append, hrep, trimmed_append_replicate (getLast?_escape (getLast?_trimmed s))]

/-- The pieces of a root that a scan goes through. -/
def rootPieces (root : Path) : List String :=
  (((trimmed root.text.toList).splitOn '/').drop 1).map String.ofList

/-- The path that a scan starts at: the root, spelled piece by piece. -/
def base (root : Path) : Path := extend ⟨"/"⟩ (rootPieces root)

theorem notMem_of_mem_rootPieces : ∀ n ∈ rootPieces root, '/' ∉ n.toList := by
  intro n hn
  obtain ⟨p, hp, rfl⟩ := List.mem_map.mp hn
  rw [String.toList_ofList]
  exact Text.notMem_of_mem_splitOn (List.mem_of_mem_drop hp)

theorem isAbsolute_base : (base root).isAbsolute = true :=
  Path.isAbsolute_extend_pieces rfl notMem_of_mem_rootPieces

theorem splitOn_append_replicate (s : List Char) (k : Nat) :
    (s ++ List.replicate k '/').splitOn '/' = s.splitOn '/' ++ List.replicate k [] := by
  induction k with
  | zero => simp
  | succ k ih =>
    rw [List.replicate_succ', ← List.append_assoc, List.splitOn_append_cons_self, ih,
      List.replicate_succ', List.append_assoc]
    rfl

/-- A scan starts at the root. -/
theorem base_same (h : root.isAbsolute = true) : (base root).same root = true := by
  obtain ⟨k, hk⟩ := exists_trimmed root.text.toList
  have hpieces : root.tailPieces =
      ((trimmed root.text.toList).splitOn '/').drop 1 ++ List.replicate k [] := by
    rw [Path.tailPieces, Path.pieces]
    conv => lhs; rw [hk]
    rw [splitOn_append_replicate,
      List.drop_append_of_le_length (List.length_pos_iff.mpr (List.splitOn_ne_nil _ _))]
  have hnone : (List.replicate k ([] : List Char)).filterMap Path.stepOf? = [] := by
    rw [List.filterMap_eq_nil_iff]
    intro q hq
    rw [List.eq_of_mem_replicate hq]
    rfl
  rw [Path.same, beq_iff_eq, base, Path.steps_extend_pieces rfl notMem_of_mem_rootPieces,
    Path.steps_of_isAbsolute h, hpieces, List.filterMap_append, hnone, List.append_nil, rootPieces,
    List.map_map]
  have hid : String.toList ∘ String.ofList = id := funext fun _ => String.toList_ofList
  rw [hid, List.map_id]
  rfl

/-! ## The components of a scan -/

theorem absolute_eq (root : Path) (a : Pattern) :
    absolute root a = escape (trimmed root.text.toList) ++ '/' :: a.source.toList := by
  rw [← trimmed_escape]
  rfl

/-- An absolute pattern has the pieces of the root, escaped, and its own. -/
theorem exists_absolute_pieces (h : root.isAbsolute = true) (a : Pattern) :
    ∃ rest, absolute root a = '/' :: rest ∧
      rest.splitOn '/' = (rootPieces root).map (escape ·.toList) ++ a.source.toList.splitOn '/' := by
  obtain ⟨t, ht⟩ := Path.isAbsolute_iff.mp h
  obtain ⟨k, hk⟩ := exists_trimmed root.text.toList
  have hmap : (rootPieces root).map (escape ·.toList) =
      (((trimmed root.text.toList).splitOn '/').drop 1).map escape := by
    rw [rootPieces, List.map_map]
    exact List.map_congr_left fun p _ => by rw [Function.comp, String.toList_ofList]
  rw [absolute_eq, hmap]
  cases hw : trimmed root.text.toList with
  | nil => exact ⟨a.source.toList, rfl, rfl⟩
  | cons c w =>
    rw [hw, ht, List.cons_append, List.cons.injEq] at hk
    rw [← hk.1]
    refine ⟨escape w ++ '/' :: a.source.toList, rfl, ?_⟩
    rw [List.splitOn_append_cons_self, Glob.splitOn_escape, Text.splitOn_sep_cons]
    rfl

/-- The components of a scan are those of the root, and those of the alternative. -/
theorem components?_absolute (h : root.isAbsolute = true) {a : Pattern}
    (ha : Plain a.source.toList) {tss : List (List Glob.Token)}
    (hr : List.Forall₂ (Reads true) (a.source.toList.splitOn '/') tss) :
    ∃ cs ds, Glob.components? (absolute root a) = some (cs ++ ds) ∧
      cs.map (·.tokens) = (rootPieces root).map (·.toList.map escapedToken) ∧
      ds.map (·.tokens) = tss := by
  obtain ⟨rest, habs, hsplit⟩ := exists_absolute_pieces h a
  have hroot : List.Forall₂ (Reads true) ((rootPieces root).map (escape ·.toList))
      ((rootPieces root).map (·.toList.map escapedToken)) := by
    rw [List.forall₂_map_left_iff, List.forall₂_map_right_iff, List.forall₂_same]
    exact fun n _ => Glob.reads_escape n.toList true
  obtain ⟨cs, hcs, htok⟩ := Glob.mapM_parse hroot
  obtain ⟨ds, hds, htok'⟩ := Glob.mapM_parse hr
  have hlast : (rest.splitOn '/').getLast? ≠ some [] := by
    rw [hsplit, List.getLast?_append_of_ne_nil _ (List.splitOn_ne_nil _ _)]
    intro e
    exact (ha.2.1 [] (List.mem_of_getLast? e)).1 rfl
  refine ⟨cs, ds, ?_, htok, htok'⟩
  rw [habs, Glob.components?]
  simp only [hlast, if_false]
  rw [hsplit, List.mapM_append, hcs, hds]
  rfl

theorem collapse_append {cs : List Pattern} {rs : List String} (hrs : ∀ n ∈ rs, '/' ∉ n.toList)
    (h : cs.map (·.tokens) = rs.map (·.toList.map escapedToken)) (ds : List Pattern) :
    collapse (cs ++ ds) = cs ++ collapse ds := by
  induction rs generalizing cs with
  | nil =>
    rw [List.map_nil, List.map_eq_nil_iff] at h
    subst h
    rfl
  | cons n rs ih =>
    rw [List.map_cons] at h
    obtain ⟨c, cs, rfl, hc, hcs⟩ := List.map_eq_cons_iff.mp h
    have hinner : Glob.Inner c.tokens := hc ▸ Glob.inner_escaped (hrs n List.mem_cons_self)
    rw [List.cons_append, Glob.collapse_cons (Glob.isRecursive_eq_false hinner),
      ih (fun m hm => hrs m (List.mem_cons_of_mem n hm)) hcs]
    rfl

/-- A search finds the files below the root whose names the alternative stands for. -/
theorem mem_search (hw : tree.WellFormed) (h : root.isAbsolute = true) {a : Pattern}
    (hread : Reads true a.source.toList a.tokens) (ha : Plain a.source.toList) {q : Path} :
    q ∈ search tree (absolute root a) ↔
      ∃ ns, ns ≠ [] ∧ (∀ n ∈ ns, IsFileName n) ∧ q = (base root).extend ns ∧
        tree.isFile q = true ∧ Denotes a.tokens (List.intercalate ['/'] (ns.map String.toList)) := by
  have hpieces : ∀ p ∈ a.source.toList.splitOn '/', '/' ∉ p ∧ '[' ∉ p := fun p hp =>
    ⟨Text.notMem_of_mem_splitOn hp, fun hm => ha.1 (Text.mem_of_mem_splitOn hp hm)⟩
  rw [← @List.intercalate_splitOn _ a.source.toList _ _ '/'] at hread
  obtain ⟨tss, htss, htok⟩ :=
    Glob.exists_components (List.splitOn_ne_nil _ _) hpieces hread
  obtain ⟨cs, ds, hcomp, hcs, hds⟩ := components?_absolute h ha htss
  have htrail : Trail ds := Glob.trail_of_reads (hds ▸ htss) (List.splitOn_ne_nil _ _) hpieces
    ha.2.1 ha.2.2
  have hlast : (absolute root a).getLast? ≠ some '/' := by
    have hne : a.source.toList ≠ [] := by
      intro e
      exact (ha.2.1 [] (by rw [e]; exact List.mem_cons_self)).1 rfl
    rw [absolute_eq, List.getLast?_append_of_ne_nil _ (by simp), List.getLast?_cons_of_ne_nil hne]
    exact ha.getLast?_ne
  have hden : ∀ {ns : List String}, ns ≠ [] → (∀ n ∈ ns, IsFileName n) →
      (Denotes a.tokens (List.intercalate ['/'] (ns.map String.toList)) ↔
        Leads (ds.map (·.tokens)) (ns.map String.toList)) := by
    intro ns hne hn
    rw [htok, hds, Glob.denotes_joined_iff (hds ▸ htrail.route) (by simpa using hne)]
    intro q hq
    obtain ⟨n, hm, rfl⟩ := List.mem_map.mp hq
    exact (hn n hm).2.2.2
  have hthrough : (q ∈ walk tree (cs ++ collapse ds) ⟨"/"⟩ → q ∈ walk tree (collapse ds) (base root)) ∧
      (tree.present (base root) = true → q ∈ walk tree (collapse ds) (base root) →
        q ∈ walk tree (cs ++ collapse ds) ⟨"/"⟩) :=
    Glob.mem_walk_escaped_append rfl notMem_of_mem_rootPieces hcs
  obtain ⟨hto, hfrom⟩ := hthrough
  have hwalk := @Glob.mem_walk_collapse tree hw ds htrail q (base root) isAbsolute_base
  rw [search, if_neg hlast, hcomp]
  simp only [collapse_append notMem_of_mem_rootPieces hcs, List.mem_filter]
  constructor
  · rintro ⟨hq, hfile⟩
    obtain ⟨ns, hl, hlead, rfl⟩ := hwalk.mp (hto hq)
    have hn := hl.isFileName hw
    have hne : ns ≠ [] := by simpa using hlead.ne_nil htrail.route
    exact ⟨ns, hne, hn, rfl, hfile, (hden hne hn).mpr hlead⟩
  · rintro ⟨ns, hne, hn, rfl, hfile, hd⟩
    have hpres := FileTree.present_of_isFile hfile
    have hl := Glob.listed_of_present isAbsolute_base hn hpres
    have hbase := FileTree.present_of_present_extend isAbsolute_base
      (Path.notMem_of_isFileName hn) hpres
    exact ⟨hfrom hbase (hwalk.mpr ⟨ns, hl, (hden hne hn).mp hd, rfl⟩), hfile⟩

/-! ## No path twice -/

/-- The paths kept so far, with one more unless it is there already. -/
def keep (kept : List Path) (p : Path) : List Path :=
  if kept.any (·.same p) then kept else p :: kept

theorem distinct_eq (paths : List Path) : distinct paths = (paths.foldl keep []).reverse := rfl

theorem mem_foldl_keep {q : Path} : ∀ {paths kept : List Path},
    q ∈ paths.foldl keep kept → q ∈ kept ∨ q ∈ paths := by
  intro paths
  induction paths with
  | nil => intro kept h; exact Or.inl h
  | cons p paths ih =>
    intro kept h
    rcases ih h with h | h
    · rw [keep] at h
      split at h
      · exact Or.inl h
      · rcases List.mem_cons.mp h with rfl | h
        · exact Or.inr List.mem_cons_self
        · exact Or.inl h
    · exact Or.inr (List.mem_cons_of_mem p h)

theorem exists_mem_foldl_keep : ∀ {paths kept : List Path} {q : Path}, q ∈ kept ∨ q ∈ paths →
    ∃ p ∈ paths.foldl keep kept, p.same q = true := by
  intro paths
  induction paths with
  | nil =>
    intro kept q h
    rcases h with h | h
    · exact ⟨q, h, same_iff.mpr rfl⟩
    · simp at h
  | cons p paths ih =>
    intro kept q h
    have hstays : ∀ r ∈ kept, r ∈ keep kept p := by
      intro r hr
      rw [keep]
      split
      · exact hr
      · exact List.mem_cons_of_mem p hr
    rcases h with h | h
    · exact ih (Or.inl (hstays q h))
    · rcases List.mem_cons.mp h with rfl | h
      · by_cases hs : kept.any (·.same q) = true
        · obtain ⟨r, hr, hrq⟩ := List.any_eq_true.mp hs
          obtain ⟨x, hx, hxr⟩ := ih (Or.inl (hstays r hr))
          exact ⟨x, hx, same_iff.mpr ((same_iff.mp hxr).trans (same_iff.mp hrq))⟩
        · exact ih (Or.inl (by rw [keep, if_neg hs]; exact List.mem_cons_self))
      · exact ih (Or.inr h)

theorem pairwise_foldl_keep : ∀ {paths kept : List Path},
    kept.Pairwise (fun p q => p.same q = false) →
      (paths.foldl keep kept).Pairwise (fun p q => p.same q = false) := by
  intro paths
  induction paths with
  | nil => intro kept h; exact h
  | cons p paths ih =>
    intro kept h
    refine ih ?_
    rw [keep]
    split
    · exact h
    · rename_i hs
      refine List.pairwise_cons.mpr ⟨fun q hq => ?_, h⟩
      rw [Bool.eq_false_iff, ne_eq, same_iff]
      intro e
      exact hs (List.any_eq_true.mpr ⟨q, hq, same_iff.mpr e.symm⟩)

/-- **No two files of a scan are the same.** -/
theorem pairwise_files (fp : FilePattern) (tree : FileTree) (root : Path) :
    (fp.files tree root).Pairwise (fun p q => p.same q = false) := by
  rw [files, distinct_eq, List.pairwise_reverse]
  refine (pairwise_foldl_keep .nil).imp fun {p q} h => ?_
  rw [Bool.eq_false_iff, ne_eq, same_iff] at h ⊢
  exact fun e => h e.symm

/-! ## Scanning and matching -/

/-- Every alternative is read from a plain text. -/
def IsPlain (fp : FilePattern) : Prop :=
  ∀ a ∈ fp.alternatives, Reads true a.source.toList a.tokens ∧ Plain a.source.toList

/-- Each alternative of a pattern is read from one of the texts that its brace groups stand for. -/
theorem reads_of_parse {source : String} {fp : FilePattern} (h : parse source = .ok fp) :
    ∀ a ∈ fp.alternatives,
      a.source.toList ∈ Glob.expandBraces source.toList ∧ Reads true a.source.toList a.tokens := by
  rw [parse, map_eq_ok_iff] at h
  obtain ⟨as, has, rfl⟩ := h
  intro a ha
  obtain ⟨s, hs, he⟩ := exists_of_mem_mapM has ha
  have hparse : Pattern.parse (String.ofList s) = .ok a := by
    cases hp : Pattern.parse (String.ofList s) with
    | error e => rw [hp] at he; cases he
    | ok b => rw [hp] at he; cases he; rfl
  obtain ⟨hsource, hread⟩ := Glob.parse_eq_ok_iff.mp hparse
  rw [String.toList_ofList] at hread
  have hlist : a.source.toList = s := by rw [hsource, String.toList_ofList]
  exact ⟨hlist ▸ hs, hlist ▸ hread⟩

/-- What is parsed from plain alternatives is plain. -/
theorem isPlain_of_parse {source : String} {fp : FilePattern} (h : parse source = .ok fp)
    (hplain : ∀ s ∈ Glob.expandBraces source.toList, Plain s) : fp.IsPlain := by
  intro a ha
  obtain ⟨hs, hread⟩ := reads_of_parse h a ha
  exact ⟨hread, hplain _ hs⟩

/-- A path below any spelling of the root is accepted if some alternative stands for its
names. -/
theorem accepts_extend_iff {fp : FilePattern} (hfp : fp.IsPlain) {b : Path}
    (hb : b.isAbsolute = true) (hs : b.same root = true) {ns : List String} (hne : ns ≠ [])
    (hn : ∀ n ∈ ns, IsFileName n) :
    fp.accepts root (b.extend ns) = true ↔
      ∃ a ∈ fp.alternatives, Denotes a.tokens (List.intercalate ['/'] (ns.map String.toList)) := by
  rw [accepts, Path.relativeTo?_extend hb hs hne hn]
  simp only [List.any_eq_true, String.toList_ofList]
  constructor
  · rintro ⟨a, ha, hfit⟩
    exact ⟨a, ha, (Pattern.fits_iff (hfp a ha).1.placed _).mp hfit⟩
  · rintro ⟨a, ha, hd⟩
    exact ⟨a, ha, (Pattern.fits_iff (hfp a ha).1.placed _).mpr hd⟩

/-- **The scan finds the files that are accepted.** -/
theorem mem_files_iff (hw : tree.WellFormed) (h : root.isAbsolute = true) {fp : FilePattern}
    (hfp : fp.IsPlain) {q : Path} :
    q ∈ fp.files tree root ↔
      ∃ ns, ns ≠ [] ∧ (∀ n ∈ ns, IsFileName n) ∧ q = (base root).extend ns ∧
        tree.isFile q = true ∧ fp.accepts root q = true := by
  have hfound : ∀ {q : Path}, q ∈ (fp.alternatives.flatMap fun a => search tree (absolute root a)) ↔
      ∃ ns, ns ≠ [] ∧ (∀ n ∈ ns, IsFileName n) ∧ q = (base root).extend ns ∧
        tree.isFile q = true ∧ fp.accepts root q = true := by
    intro q
    rw [List.mem_flatMap]
    constructor
    · rintro ⟨a, ha, hq⟩
      obtain ⟨ns, hne, hn, rfl, hfile, hd⟩ := (mem_search hw h (hfp a ha).1 (hfp a ha).2).mp hq
      exact ⟨ns, hne, hn, rfl, hfile,
        (accepts_extend_iff hfp isAbsolute_base (base_same h) hne hn).mpr ⟨a, ha, hd⟩⟩
    · rintro ⟨ns, hne, hn, rfl, hfile, hacc⟩
      obtain ⟨a, ha, hd⟩ :=
        (accepts_extend_iff hfp isAbsolute_base (base_same h) hne hn).mp hacc
      exact ⟨a, ha, (mem_search hw h (hfp a ha).1 (hfp a ha).2).mpr
        ⟨ns, hne, hn, rfl, hfile, hd⟩⟩
  rw [files, distinct_eq, List.mem_reverse]
  constructor
  · intro hq
    rcases mem_foldl_keep hq with hq | hq
    · simp at hq
    · exact hfound.mp hq
  · intro hq
    obtain ⟨p, hp, hsame⟩ := @exists_mem_foldl_keep _ [] q (Or.inr (hfound.mpr hq))
    obtain ⟨ns, _, hn, rfl, _⟩ := hq
    rcases mem_foldl_keep hp with hp' | hp'
    · simp at hp'
    · -- paths led on from one root are the same only if they are equal
      obtain ⟨ms, _, hm, rfl, _⟩ := hfound.mp hp'
      have : ms = ns := (Path.extend_same_iff isAbsolute_base isAbsolute_base
        (same_iff.mpr rfl) hm hn).mp hsame
      rwa [← this]

/-! ## Roots without dots -/

/-- The names of a root, if no piece of it is a `.` or `..`. -/
def rootNames (root : Path) : Location := (rootPieces root).filter (· ≠ "")

theorem mem_of_mem_trimmed {s : List Char} {p : List Char} (hp : p ∈ (trimmed s).splitOn '/') :
    p ∈ s.splitOn '/' := by
  obtain ⟨k, hk⟩ := exists_trimmed s
  rw [hk, splitOn_append_replicate]
  exact List.mem_append_left _ hp

/-- A path has no `.` and no `..` among its pieces. -/
def Undotted (p : Path) : Prop := ∀ piece ∈ Path.pieces p.text.toList, piece ≠ ['.'] ∧ piece ≠ ['.', '.']

instance (p : Path) : Decidable (Undotted p) := inferInstanceAs (Decidable (∀ _ ∈ _, _))

theorem isFileName_of_mem_rootPieces (hdots : Undotted root) :
    ∀ n ∈ rootPieces root, n = "" ∨ IsFileName n := by
  intro n hn
  by_cases he : n = ""
  · exact Or.inl he
  · have hsep := notMem_of_mem_rootPieces n hn
    obtain ⟨p, hp, rfl⟩ := List.mem_map.mp hn
    obtain ⟨h₁, h₂⟩ := hdots p (mem_of_mem_trimmed (List.mem_of_mem_drop hp))
    refine Or.inr ⟨he, ?_, ?_, hsep⟩
    · rw [ne_eq, Path.ofList_eq_iff]; exact h₁
    · rw [ne_eq, Path.ofList_eq_iff]; exact h₂

theorem isFileName_of_mem_rootNames (hdots : Undotted root) : ∀ n ∈ rootNames root, IsFileName n := by
  intro n hn
  obtain ⟨hm, he⟩ := List.mem_filter.mp hn
  exact (isFileName_of_mem_rootPieces hdots n hm).resolve_left (by simpa using he)

/-- What a scan finds below such a root is spelled plainly. -/
theorem base_extend_eq_pathOf (hdots : Undotted root) {ns : List String} (hne : ns ≠ [])
    (hn : ∀ n ∈ ns, IsFileName n) :
    (base root).extend ns = FileTree.pathOf (rootNames root ++ ns) := by
  have hall : ∀ n ∈ rootNames root ++ ns, IsFileName n := by
    intro n hm
    rcases List.mem_append.mp hm with hm | hm
    · exact isFileName_of_mem_rootNames hdots n hm
    · exact hn n hm
  have hbody : (base root).bodyPieces = (rootNames root).map String.toList :=
    Path.bodyPieces_extend_pieces rfl (isFileName_of_mem_rootPieces hdots)
  have hroot : (⟨"/"⟩ : Path).isAbsolute = true := rfl
  rw [Path.pathOf_eq_extend hall]
  refine Path.eq_of_tailPieces (Path.isAbsolute_extend isAbsolute_base hn)
    (Path.isAbsolute_extend hroot hall) ?_
  rw [Path.tailPieces_extend hne isAbsolute_base hn,
    Path.tailPieces_extend (List.append_ne_nil_of_right_ne_nil _ hne) hroot hall, hbody,
    List.map_append]
  rfl

theorem steps_root (h : root.isAbsolute = true) (hdots : Undotted root) :
    root.steps = .root :: (rootNames root).map .name := by
  rw [← same_iff.mp (base_same h), Path.steps_of_isAbsolute isAbsolute_base,
    ← Path.filterMap_bodyPieces isAbsolute_base, base,
    Path.bodyPieces_extend_pieces rfl (isFileName_of_mem_rootPieces hdots)]
  exact congrArg _ (Path.filterMap_stepOf?_names (isFileName_of_mem_rootNames hdots))

/-- **A scan lists the regular files below the root that the pattern accepts**, each once. -/
theorem files_agree {source : String} {fp : FilePattern} (hparse : parse source = .ok fp)
    (hplain : ∀ s ∈ Glob.expandBraces source.toList, Plain s) {root : Path}
    (h : root.isAbsolute = true) (hdots : Undotted root) {tree : FileTree} (hw : tree.WellFormed) :
    (fp.files tree root).Pairwise (fun p q => p.same q = false) ∧
      ∀ p, p ∈ fp.files tree root ↔
        ∃ loc content, p = FileTree.pathOf loc ∧ tree.entry? loc = some (.file content) ∧
          p.under root = true ∧ p.same root = false ∧ fp.accepts root p = true := by
  have hfp := isPlain_of_parse hparse hplain
  refine ⟨pairwise_files fp tree root, fun p => ?_⟩
  rw [mem_files_iff hw h hfp]
  constructor
  · rintro ⟨ns, hne, hn, rfl, hfile, hacc⟩
    obtain ⟨content, hc⟩ := FileTree.isFile_iff.mp hfile
    have hall : ∀ n ∈ rootNames root ++ ns, IsFileName n := by
      intro n hm
      rcases List.mem_append.mp hm with hm | hm
      · exact isFileName_of_mem_rootNames hdots n hm
      · exact hn n hm
    refine ⟨rootNames root ++ ns, content, base_extend_eq_pathOf hdots hne hn, ?_,
      Path.under_extend isAbsolute_base (base_same h) hn, ?_, hacc⟩
    · rw [base_extend_eq_pathOf hdots hne hn, hw.find?_pathOf hall] at hc
      exact hc
    · rw [Bool.eq_false_iff, ne_eq, same_iff, Path.steps_extend isAbsolute_base hn,
        same_iff.mp (base_same h)]
      simpa using hne
  · rintro ⟨loc, content, rfl, he, hunder, hsame, hacc⟩
    have hloc := hw.named_of_entry? he
    have hsteps : (FileTree.pathOf loc).steps = .root :: loc.map .name := by
      rw [Path.pathOf_eq_extend hloc, Path.steps_extend rfl hloc]
      rfl
    rw [Path.under_iff, hsteps, steps_root h hdots] at hunder
    rw [Bool.eq_false_iff, ne_eq, same_iff, hsteps, steps_root h hdots] at hsame
    obtain ⟨rest, hrest⟩ := hunder
    rw [List.cons_append, List.cons.injEq] at hrest
    obtain ⟨ms, ns, rfl, hms, rfl⟩ := List.map_eq_append_iff.mp hrest.2.symm
    obtain rfl : ms = rootNames root := Path.names_inj hms
    have hn : ∀ n ∈ ns, IsFileName n := fun n hm => hloc n (List.mem_append_right _ hm)
    have hne : ns ≠ [] := by
      rintro rfl
      simp at hsame
    refine ⟨ns, hne, hn, (base_extend_eq_pathOf hdots hne hn).symm, ?_, hacc⟩
    exact FileTree.isFile_iff.mpr ⟨content, by rw [hw.find?_pathOf hloc, he]⟩

/-- A tree with a hidden file in a folder whose name looks like a class. -/
def hiddenTree : FileTree :=
  ⟨[(["a[1]"], .directory), (["a[1]", "core"], .directory),
    (["a[1]", "core", ".x.inc"], .file ByteArray.empty), (["a[1]", "y.inc"], .file ByteArray.empty)]⟩

/-- A pattern with a brace group and a `**`. -/
def incPattern : FilePattern :=
  { source := "\x7bcore,web\x7d/**/*.inc"
    alternatives :=
      [⟨"core/**/*.inc",
          "core/".toList.map .literal ++ .anyDepth :: .anyRun :: ".inc".toList.map .literal⟩,
        ⟨"web/**/*.inc",
          "web/".toList.map .literal ++ .anyDepth :: .anyRun :: ".inc".toList.map .literal⟩] }

theorem files_agree_inc :
    (incPattern.files hiddenTree ⟨"/a[1]/"⟩).Pairwise (fun p q => p.same q = false) ∧
      ∀ p, p ∈ incPattern.files hiddenTree ⟨"/a[1]/"⟩ ↔
        ∃ loc content, p = FileTree.pathOf loc ∧ hiddenTree.entry? loc = some (.file content) ∧
          p.under ⟨"/a[1]/"⟩ = true ∧ p.same ⟨"/a[1]/"⟩ = false ∧
          incPattern.accepts ⟨"/a[1]/"⟩ p = true :=
  have hparse : parse incPattern.source = .ok incPattern := by decide +kernel
  files_agree hparse (by decide +kernel) (by decide +kernel) (by decide +kernel)
    (by decide +kernel)

example : incPattern.files hiddenTree ⟨"/a[1]/"⟩ = [⟨"/a[1]/core/.x.inc"⟩] := by decide +kernel

end SiteAssist.FilePattern
