import SiteAssist.Proofs.Path.Spelling

/-!
# Where a path leads in a tree

A tree is well formed (`FileTree.WellFormed`) when every entry has names that can be names of files
and lies in a directory.  In such a tree what a path leads to can be read off the names that were
joined to it:

* `find?_extend`: a path led on by names leads to **the entry at the location of the path, followed
  by the names**.
* `present_join_iff`: a joined name leads to something exactly when the directory lists it.
* `length_le_height`: nothing lies deeper than the tree is high.
* `find?_eq_of_steps`: paths of the same steps lead to the same thing, however they are spelled, if
  their last piece is a step.  So `find?_plain` reads off a path without `..` where it leads.
-/

namespace SiteAssist

/-- Of a list of keys and values with some keys left out, each other key keeps its value. -/
theorem lookup_filter_key {κ β : Type} [BEq κ] [LawfulBEq κ] (keep : κ → Bool) (k : κ)
    (es : List (κ × β)) :
    (es.filter fun e => keep e.1).lookup k = if keep k = true then es.lookup k else none := by
  induction es with
  | nil => simp
  | cons e es ih =>
    obtain ⟨l, b⟩ := e
    by_cases hl : keep l = true
    · rw [List.filter_cons_of_pos (by simpa using hl), List.lookup_cons, List.lookup_cons, ih]
      by_cases hk : k = l
      · subst hk
        simp [hl]
      · rw [beq_false_of_ne hk]
    · rw [List.filter_cons_of_neg (by simpa using hl), ih, List.lookup_cons]
      by_cases hk : k = l
      · subst hk
        simp [hl]
      · rw [beq_false_of_ne hk]

namespace FileTree

open SiteAssist.Path (IsFileName extend tailPieces bodyPieces)

/-- Every entry has proper names and lies in a directory. -/
structure WellFormed (tree : FileTree) : Prop where
  named : ∀ loc e, (loc, e) ∈ tree.entries → ∀ n ∈ loc, IsFileName n
  nested : ∀ loc e, (loc, e) ∈ tree.entries → tree.isDirectoryAt loc.dropLast = true

instance (tree : FileTree) : Decidable tree.WellFormed :=
  decidable_of_iff
    ((∀ x ∈ tree.entries, ∀ n ∈ x.1, IsFileName n) ∧
      ∀ x ∈ tree.entries, tree.isDirectoryAt x.1.dropLast = true)
    ⟨fun h => ⟨fun loc e hm => h.1 (loc, e) hm, fun loc e hm => h.2 (loc, e) hm⟩,
      fun h => ⟨fun x hm => h.named x.1 x.2 hm, fun x hm => h.nested x.1 x.2 hm⟩⟩

variable {tree : FileTree}

/-! ## Entries -/

theorem entry?_of_ne_nil {loc : Location} (h : loc ≠ []) :
    tree.entry? loc = tree.entries.lookup loc := if_neg h

theorem mem_of_entry?_eq_some {loc : Location} (h : loc ≠ []) {e : Entry}
    (he : tree.entry? loc = some e) : (loc, e) ∈ tree.entries := by
  rw [entry?_of_ne_nil h] at he
  obtain ⟨l₁, l₂, hl, _⟩ := List.lookup_eq_some_iff.mp he
  rw [hl]
  simp

theorem entry?_isSome_of_mem {loc : Location} {e : Entry} (h : (loc, e) ∈ tree.entries) :
    (tree.entry? loc).isSome = true := by
  by_cases hl : loc = []
  · simp [FileTree.entry?, hl]
  · rw [entry?_of_ne_nil hl, List.lookup_isSome_iff]
    exact ⟨(loc, e), h, by simp⟩

theorem isDirectoryAt_iff {loc : Location} :
    tree.isDirectoryAt loc = true ↔ tree.entry? loc = some .directory := by
  rw [isDirectoryAt]
  cases tree.entry? loc with
  | none => simp
  | some e => cases e <;> simp

@[simp] theorem isDirectoryAt_nil : tree.isDirectoryAt [] = true := by
  rw [isDirectoryAt_iff, entry?, if_pos rfl]

theorem WellFormed.named_of_entry? (h : tree.WellFormed) {loc : Location} {e : Entry}
    (he : tree.entry? loc = some e) : ∀ n ∈ loc, IsFileName n := by
  by_cases hl : loc = []
  · simp [hl]
  · exact h.named loc e (mem_of_entry?_eq_some hl he)

theorem WellFormed.isDirectoryAt_dropLast (h : tree.WellFormed) {loc : Location} {e : Entry}
    (he : tree.entry? loc = some e) : tree.isDirectoryAt loc.dropLast = true := by
  by_cases hl : loc = []
  · simp [hl]
  · exact h.nested loc e (mem_of_entry?_eq_some hl he)

/-- All that is above an entry is a directory. -/
theorem WellFormed.isDirectoryAt_above (h : tree.WellFormed) :
    ∀ {below above : Location} {e : Entry}, below ≠ [] → tree.entry? (above ++ below) = some e →
      tree.isDirectoryAt above = true := by
  intro below
  induction hl : below.length generalizing below with
  | zero => intro _ _ hne; exact absurd (List.length_eq_zero_iff.mp hl) hne
  | succ k ih =>
    intro above e hne he
    have hd := h.isDirectoryAt_dropLast he
    rw [List.dropLast_append_of_ne_nil hne] at hd
    by_cases hb : below.dropLast = []
    · rwa [hb, List.append_nil] at hd
    · exact ih (by simp [hl]) hb (isDirectoryAt_iff.mp hd)

theorem length_le_height {loc : Location} {e : Entry} (h : (loc, e) ∈ tree.entries) :
    loc.length ≤ tree.height := by
  rw [height]
  generalize tree.entries = es at h
  induction es with
  | nil => simp at h
  | cons x es ih =>
    rw [List.map_cons, List.foldr_cons]
    rcases List.mem_cons.mp h with rfl | h
    · exact Nat.le_max_left _ _
    · exact Nat.le_trans (ih h) (Nat.le_max_right _ _)

/-! ## Names in a directory -/

theorem nameIn?_eq_some_iff {dir loc : Location} {n : String} :
    nameIn? dir loc = some n ↔ loc = dir ++ [n] := by
  rw [nameIn?]
  constructor
  · intro h
    split at h
    · rename_i hd
      obtain ⟨w, hw⟩ := List.getLast?_eq_some_iff.mp h
      rw [hw, List.dropLast_concat] at hd
      rw [hw, hd]
    · simp at h
  · rintro rfl
    simp

theorem mem_insertName {name n : String} : ∀ {ns : List String},
    n ∈ insertName name ns ↔ n = name ∨ n ∈ ns := by
  intro ns
  induction ns with
  | nil => simp [insertName]
  | cons m ms ih =>
    rw [insertName]
    split
    · rename_i he
      subst he
      simp
    · split
      · simp
      · simp only [List.mem_cons, ih]
        constructor
        · rintro (h | h | h) <;> simp [h]
        · rintro (h | h | h) <;> simp [h]

theorem mem_namesAt {dir : Location} {n : String} :
    n ∈ tree.namesAt dir ↔ ∃ e, (dir ++ [n], e) ∈ tree.entries := by
  have hfold : ∀ ms : List String, n ∈ ms.foldr insertName [] ↔ n ∈ ms := by
    intro ms
    induction ms with
    | nil => simp
    | cons m ms ih => rw [List.foldr_cons, mem_insertName, ih, List.mem_cons]
  rw [namesAt, hfold, List.mem_filterMap]
  constructor
  · rintro ⟨⟨loc, e⟩, hm, hn⟩
    rw [nameIn?_eq_some_iff.mp hn] at hm
    exact ⟨e, hm⟩
  · rintro ⟨e, hm⟩
    exact ⟨_, hm, nameIn?_eq_some_iff.mpr rfl⟩

/-! ## Following a path -/

theorem follow_append (l : Location) (ps qs : List (List Char)) :
    tree.follow l (ps ++ qs) = (tree.follow l ps).bind fun m => tree.follow m qs := by
  induction ps generalizing l with
  | nil => rfl
  | cons p ps ih =>
    rw [List.cons_append, follow, follow]
    split
    · rfl
    · split
      · exact ih l
      · split
        · exact ih _
        · exact ih _

theorem follow_empty (l : Location) :
    tree.follow l [[]] = if tree.isDirectoryAt l = true then some l else none := by
  rw [follow]
  by_cases h : tree.isDirectoryAt l = true <;> simp [h, follow]

theorem follow_name {n : String} (hn : IsFileName n) (l : Location) (ps : List (List Char)) :
    tree.follow l (n.toList :: ps) =
      if tree.isDirectoryAt l = true then tree.follow (l ++ [n]) ps else none := by
  have hs := hn.stepOf?
  rw [Path.stepOf?] at hs
  rw [follow]
  by_cases h : tree.isDirectoryAt l = true
  · rw [if_neg (by simp [h]), if_pos h]
    split at hs
    · simp at hs
    · rename_i h₁
      split at hs
      · simp at hs
      · rename_i h₂
        rw [if_neg h₁, if_neg h₂, String.ofList_toList]
  · rw [if_pos h, if_neg h]

theorem locate?_of_isAbsolute {p : Path} (h : p.isAbsolute = true) :
    tree.locate? p = tree.follow [] p.tailPieces := by
  rw [locate?, Path.pieces_of_isAbsolute h]
  simp [h]

/-- A joined piece is one step further, from wherever the path leads. -/
theorem locate?_join {p : Path} (h : p.isAbsolute = true) {n : String} (hn : '/' ∉ n.toList) :
    tree.locate? (p.join n) = (tree.locate? p).bind fun l => tree.follow l [n.toList] := by
  rw [locate?_of_isAbsolute (Path.isAbsolute_join h hn), locate?_of_isAbsolute h,
    Path.tailPieces_join h hn, follow_append]
  rcases Path.tailPieces_eq h with ⟨e, _⟩ | ⟨e, _⟩
  · rw [e]
  · -- a trailing separator asks for the directory that the joined piece needs anyway
    rw [e, follow_append]
    cases tree.follow [] p.bodyPieces with
    | none => rfl
    | some l =>
      simp only [Option.bind_some, follow_empty]
      by_cases hd : tree.isDirectoryAt l = true
      · rw [if_pos hd, Option.bind_some]
      · rw [if_neg hd, follow, if_pos hd]
        rfl

theorem locate?_extend : ∀ {ns : List String} {p : Path}, p.isAbsolute = true →
    (∀ n ∈ ns, IsFileName n) →
      tree.locate? (p.extend ns) =
        (tree.locate? p).bind fun l => tree.follow l (ns.map String.toList) := by
  intro ns
  induction ns with
  | nil => intro p _ _; simp [follow]
  | cons n ns ih =>
    intro p h hn
    have hname := hn n List.mem_cons_self
    rw [Path.extend_cons, ih (Path.isAbsolute_join h hname.2.2.2)
      (fun m hm => hn m (List.mem_cons_of_mem n hm)), locate?_join h hname.2.2.2]
    rw [List.map_cons, Option.bind_assoc]
    congr 1
    funext l
    exact (follow_append l [n.toList] (ns.map String.toList)).symm

theorem follow_eq_some {ns : List String} (hn : ∀ n ∈ ns, IsFileName n) :
    ∀ {l m : Location}, tree.follow l (ns.map String.toList) = some m → m = l ++ ns := by
  induction ns with
  | nil => intro l m h; simpa [follow, eq_comm] using h
  | cons n ns ih =>
    intro l m h
    rw [List.map_cons, follow_name (hn n List.mem_cons_self)] at h
    split at h
    · rw [ih (fun k hk => hn k (List.mem_cons_of_mem n hk)) h, List.append_assoc]
      rfl
    · simp at h

theorem WellFormed.follow_of_entry? (hw : tree.WellFormed) :
    ∀ {ns : List String} {l : Location} {e : Entry}, tree.entry? (l ++ ns) = some e →
      tree.follow l (ns.map String.toList) = some (l ++ ns) := by
  intro ns
  induction ns with
  | nil => intro l e _; simp [follow]
  | cons n ns ih =>
    intro l e he
    have hn : IsFileName n := hw.named_of_entry? he n (by simp)
    have hd : tree.isDirectoryAt l = true := hw.isDirectoryAt_above (by simp) he
    rw [List.append_cons] at he ⊢
    rw [List.map_cons, follow_name hn, if_pos hd, ih he]

/-- **A path led on by names** leads to the entry below the location of the path. -/
theorem WellFormed.find?_extend (hw : tree.WellFormed) {p : Path} (h : p.isAbsolute = true)
    {ns : List String} (hn : ∀ n ∈ ns, IsFileName n) :
    tree.find? (p.extend ns) = (tree.locate? p).bind fun l => tree.entry? (l ++ ns) := by
  rw [find?, locate?_extend h hn, Option.bind_assoc]
  congr 1
  funext l
  cases hf : tree.follow l (ns.map String.toList) with
  | some m => rw [Option.bind_some, follow_eq_some hn hf]
  | none =>
    cases he : tree.entry? (l ++ ns) with
    | none => rfl
    | some e =>
      rw [hw.follow_of_entry? he] at hf
      simp at hf

theorem WellFormed.find?_pathOf (hw : tree.WellFormed) {loc : Location}
    (hn : ∀ n ∈ loc, IsFileName n) : tree.find? (pathOf loc) = tree.entry? loc := by
  rw [Path.pathOf_eq_extend hn, hw.find?_extend rfl hn]
  rfl

/-! ## What a path leads to -/

theorem isDirectory_iff {p : Path} :
    tree.isDirectory p = true ↔ ∃ l, tree.locate? p = some l ∧ tree.isDirectoryAt l = true := by
  rw [isDirectory, find?]
  cases tree.locate? p with
  | none => simp
  | some l =>
    simp only [Option.bind_some, Option.some.injEq, exists_eq_left', isDirectoryAt_iff]
    cases tree.entry? l with
    | none => simp
    | some e => cases e <;> simp

theorem mem_names {p : Path} {n : String} :
    n ∈ tree.names p ↔ ∃ l, tree.locate? p = some l ∧ tree.isDirectoryAt l = true ∧
      ∃ e, (l ++ [n], e) ∈ tree.entries := by
  rw [names]
  cases tree.locate? p with
  | none => simp
  | some l =>
    simp only [Option.some.injEq, exists_eq_left', ← mem_namesAt]
    by_cases hd : tree.isDirectoryAt l = true <;> simp [hd]

theorem WellFormed.isFileName_of_mem_names (hw : tree.WellFormed) {p : Path} {n : String}
    (h : n ∈ tree.names p) : IsFileName n := by
  obtain ⟨l, _, _, e, hm⟩ := mem_names.mp h
  exact hw.named _ e hm n (by simp)

theorem isDirectory_of_mem_names {p : Path} {n : String} (h : n ∈ tree.names p) :
    tree.isDirectory p = true := by
  obtain ⟨l, hl, hd, _⟩ := mem_names.mp h
  exact isDirectory_iff.mpr ⟨l, hl, hd⟩

/-- **A joined name leads to something exactly when the directory lists it.** -/
theorem present_join_iff {p : Path} (h : p.isAbsolute = true) {n : String} (hn : IsFileName n) :
    tree.present (p.join n) = true ↔ n ∈ tree.names p := by
  rw [present, find?, locate?_join h hn.2.2.2, mem_names]
  cases tree.locate? p with
  | none => simp
  | some l =>
    rw [Option.bind_some, follow_name hn]
    by_cases hd : tree.isDirectoryAt l = true
    · simp only [hd, if_true, Option.some.injEq, exists_eq_left', true_and, follow,
        Option.bind_some]
      constructor
      · intro hs
        obtain ⟨e, he⟩ := Option.isSome_iff_exists.mp hs
        exact ⟨e, mem_of_entry?_eq_some (by simp) he⟩
      · rintro ⟨e, he⟩
        exact entry?_isSome_of_mem he
    · simp [hd]

theorem present_of_isDirectory {p : Path} (h : tree.isDirectory p = true) :
    tree.present p = true := by
  obtain ⟨l, hl, hd⟩ := isDirectory_iff.mp h
  rw [present, find?, hl, Option.bind_some, isDirectoryAt_iff.mp hd]
  rfl

/-- Whatever is joined to a path, it leads on from a directory only. -/
theorem isDirectory_of_present_join {p : Path} (h : p.isAbsolute = true) {n : String}
    (hn : '/' ∉ n.toList) (hp : tree.present (p.join n) = true) : tree.isDirectory p = true := by
  rw [present, find?, locate?_join h hn] at hp
  cases hl : tree.locate? p with
  | none => simp [hl] at hp
  | some l =>
    refine isDirectory_iff.mpr ⟨l, hl, ?_⟩
    by_cases hd : tree.isDirectoryAt l = true
    · exact hd
    · rw [hl, Option.bind_some, follow, if_pos hd] at hp
      simp at hp

theorem present_of_present_extend : ∀ {ns : List String} {p : Path}, p.isAbsolute = true →
    (∀ n ∈ ns, '/' ∉ n.toList) → tree.present (p.extend ns) = true → tree.present p = true := by
  intro ns
  induction ns with
  | nil => intro p _ _ h; exact h
  | cons n ns ih =>
    intro p hp hn h
    have hname := hn n List.mem_cons_self
    have := ih (Path.isAbsolute_join hp hname) (fun m hm => hn m (List.mem_cons_of_mem n hm)) h
    exact present_of_isDirectory (isDirectory_of_present_join hp hname this)

theorem present_of_isFile {p : Path} (h : tree.isFile p = true) : tree.present p = true := by
  rw [isFile] at h
  rw [present]
  cases hf : tree.find? p with
  | none => simp [hf] at h
  | some e => rfl

theorem isFile_iff {p : Path} : tree.isFile p = true ↔ ∃ c, tree.find? p = some (.file c) := by
  rw [isFile]
  cases tree.find? p with
  | none => simp
  | some e => cases e <;> simp

/-! ## Spellings of a path -/

/-- The last piece of a path is a step, not a `.` or nothing after a separator. -/
def EndsInStep (p : Path) : Prop :=
  ∃ ps last, p.tailPieces = ps ++ [last] ∧ Path.stepOf? last ≠ none

theorem endsInStep_extend {p : Path} (h : p.isAbsolute = true) {ns : List String} (hne : ns ≠ [])
    (hn : ∀ n ∈ ns, IsFileName n) : EndsInStep (p.extend ns) := by
  refine ⟨p.bodyPieces ++ ns.dropLast.map String.toList, (ns.getLast hne).toList, ?_, ?_⟩
  · rw [Path.tailPieces_extend hne h hn, List.append_assoc, ← List.map_singleton,
      ← List.map_append, List.dropLast_concat_getLast]
  · simp [(hn _ (List.getLast_mem hne)).stepOf?]

theorem toList_text_of_stepOf? {piece : List Char} {s : Path.Step}
    (h : Path.stepOf? piece = some s) : s.text.toList = piece := by
  rw [Path.stepOf?] at h
  split at h
  · simp at h
  · split at h
    · rename_i hp
      rw [← Option.some.inj h, hp]
      rfl
    · rw [← Option.some.inj h, Path.Step.text, String.toList_ofList]

/-- The pieces on the way matter only as the steps they stand for, if the last is a step. -/
theorem follow_concat {last : List Char} (hlast : Path.stepOf? last ≠ none) :
    ∀ (ps : List (List Char)) (l : Location), tree.follow l (ps ++ [last]) =
      tree.follow l (((ps ++ [last]).filterMap Path.stepOf?).map (·.text.toList)) := by
  intro ps
  induction ps with
  | nil =>
    intro l
    obtain ⟨s, hs⟩ := Option.ne_none_iff_exists'.mp hlast
    rw [List.nil_append, List.filterMap_cons_some hs, List.map_cons, toList_text_of_stepOf? hs]
    rfl
  | cons q ps ih =>
    intro l
    rw [List.cons_append]
    cases hq : Path.stepOf? q with
    | some s =>
      rw [List.filterMap_cons_some hq, List.map_cons, toList_text_of_stepOf? hq, follow, follow]
      simp only [ih]
    | none =>
      rw [List.filterMap_cons_none hq, ← ih l, follow]
      have hidle : q = [] ∨ q = ['.'] := by
        rw [Path.stepOf?] at hq
        split at hq
        · assumption
        · split at hq <;> simp at hq
      by_cases hd : tree.isDirectoryAt l = true
      · rw [if_neg (by simp [hd]), if_pos hidle]
      · -- both ways stop here, as there is one more step to take
        obtain ⟨r, rs, hr⟩ := List.exists_cons_of_ne_nil (List.append_ne_nil_of_right_ne_nil ps
          (List.cons_ne_nil last []))
        rw [if_pos hd, hr, follow, if_pos hd]

/-- Paths of the same steps lead to the same location, if the last piece of each is a step. -/
theorem locate?_eq_of_steps {p q : Path} (hp : p.isAbsolute = true) (hq : q.isAbsolute = true)
    (hpl : EndsInStep p) (hql : EndsInStep q) (h : p.steps = q.steps) :
    tree.locate? p = tree.locate? q := by
  obtain ⟨ps, a, hps, ha⟩ := hpl
  obtain ⟨qs, b, hqs, hb⟩ := hql
  rw [Path.steps_of_isAbsolute hp, Path.steps_of_isAbsolute hq, List.cons.injEq, hps, hqs] at h
  rw [locate?_of_isAbsolute hp, locate?_of_isAbsolute hq, hps, hqs, follow_concat ha,
    follow_concat hb, h.2]

theorem find?_eq_of_steps {p q : Path} (hp : p.isAbsolute = true) (hq : q.isAbsolute = true)
    (hpl : EndsInStep p) (hql : EndsInStep q) (h : p.steps = q.steps) :
    tree.find? p = tree.find? q := by
  rw [find?, find?, locate?_eq_of_steps hp hq hpl hql h]

/-- A path without `..` is the root and the names of its location. -/
theorem steps_of_plain {p : Path} (hp : p.isAbsolute = true) (hup : .up ∉ p.steps) :
    p.steps = .root :: (plainLocation p).map .name ∧ ∀ n ∈ plainLocation p, IsFileName n := by
  have hstep : ∀ s ∈ p.tailPieces.filterMap Path.stepOf?, ∃ n, s = .name n ∧ IsFileName n := by
    intro s hs
    have hne : s ≠ .up := by
      rintro rfl
      exact hup (by rw [Path.steps_of_isAbsolute hp]; exact List.mem_cons_of_mem _ hs)
    obtain ⟨q, hq, hqs⟩ := List.mem_filterMap.mp hs
    have hsep : '/' ∉ q := Text.notMem_of_mem_splitOn (List.mem_of_mem_drop hq)
    cases s with
    | name n => exact ⟨n, rfl, (Path.isFileName_of_stepOf? hsep hqs).1⟩
    | up => exact absurd rfl hne
    | root | here =>
      rw [Path.stepOf?] at hqs
      split at hqs
      · simp at hqs
      · split at hqs <;> simp at hqs
  have hnames : ∃ ns : List String, p.tailPieces.filterMap Path.stepOf? = ns.map .name ∧
      ∀ n ∈ ns, IsFileName n := by
    generalize p.tailPieces.filterMap Path.stepOf? = ss at hstep
    induction ss with
    | nil => exact ⟨[], rfl, by simp⟩
    | cons s ss ih =>
      obtain ⟨n, rfl, hn⟩ := hstep s List.mem_cons_self
      obtain ⟨ns, rfl, hns⟩ := ih fun s hs => hstep s (List.mem_cons_of_mem _ hs)
      exact ⟨n :: ns, rfl, by simpa using ⟨hn, hns⟩⟩
  obtain ⟨ns, hns, hn⟩ := hnames
  have hloc : plainLocation p = ns := by
    rw [plainLocation, Path.steps_of_isAbsolute hp, hns]
    rw [List.filterMap_cons_none rfl, List.filterMap_map]
    exact List.filterMap_some
  rw [hloc, Path.steps_of_isAbsolute hp, hns]
  exact ⟨rfl, hn⟩

/-- **A path without `..` leads to its location.** -/
theorem WellFormed.find?_plain (hw : tree.WellFormed) {p : Path} (hp : p.isAbsolute = true)
    (hup : .up ∉ p.steps) (hend : EndsInStep p) : tree.find? p = tree.entry? (plainLocation p) := by
  obtain ⟨hsteps, hn⟩ := steps_of_plain hp hup
  have hne : plainLocation p ≠ [] := by
    intro e
    obtain ⟨ps, last, htail, hlast⟩ := hend
    obtain ⟨s, hs⟩ := Option.ne_none_iff_exists'.mp hlast
    rw [e, Path.steps_of_isAbsolute hp, htail, List.filterMap_append] at hsteps
    simp [hs] at hsteps
  have hroot : (⟨"/"⟩ : Path).isAbsolute = true := rfl
  rw [← hw.find?_pathOf hn, Path.pathOf_eq_extend hn]
  refine find?_eq_of_steps hp (Path.isAbsolute_extend hroot hn) hend
    (endsInStep_extend hroot hne hn) ?_
  rw [hsteps, Path.steps_extend hroot hn]
  rfl

/-- A path that leads to a file ends in a step. -/
theorem endsInStep_of_isFile {p : Path} (hp : p.isAbsolute = true) (h : tree.isFile p = true) :
    EndsInStep p := by
  obtain ⟨c, hc⟩ := isFile_iff.mp h
  have hne : p.tailPieces ≠ [] := by
    obtain ⟨t, ht⟩ := Path.isAbsolute_iff.mp hp
    rw [Path.tailPieces_of_toList ht]
    exact List.splitOn_ne_nil _ t
  refine ⟨p.tailPieces.dropLast, p.tailPieces.getLast hne, (List.dropLast_concat_getLast hne).symm, ?_⟩
  intro hidle
  have hlast : p.tailPieces.getLast hne = [] ∨ p.tailPieces.getLast hne = ['.'] := by
    rw [Path.stepOf?] at hidle
    split at hidle
    · assumption
    · split at hidle <;> simp at hidle
  rw [find?, locate?_of_isAbsolute hp, ← List.dropLast_concat_getLast hne, follow_append] at hc
  cases hl : tree.follow [] p.tailPieces.dropLast with
  | none => simp [hl] at hc
  | some l =>
    rw [hl, Option.bind_some, follow] at hc
    by_cases hd : tree.isDirectoryAt l = true
    · rw [if_neg (by simp [hd]), if_pos hlast, follow, Option.bind_some,
        isDirectoryAt_iff.mp hd] at hc
      simp at hc
    · rw [if_pos hd] at hc
      simp at hc

end FileTree

end SiteAssist
