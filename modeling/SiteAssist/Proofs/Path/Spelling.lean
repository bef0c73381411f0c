import SiteAssist.FileTree
import SiteAssist.Proofs.Text.Pieces

/-!
# How paths are spelled

A path is a text, and what it names is its list of steps.  This file follows both through `join`,
for absolute paths.

* `tailPieces_join` and `steps_join`: joining a name adds **one piece and one step**.
* `extend` joins several names, and `pathOf_eq_extend` says that the plain spelling of a location is
  the root extended by its names.
* `relativeTo?_extend`: **after any spelling of a root, what is left of a path are the names that
  were joined to it**, with single separators between them.
-/

namespace SiteAssist.Path

open Text (splitOn_sep_cons)

/-- A text that can be the name of a file. -/
def IsFileName (n : String) : Prop := n ≠ "" ∧ n ≠ "." ∧ n ≠ ".." ∧ '/' ∉ n.toList

instance (n : String) : Decidable (IsFileName n) := inferInstanceAs (Decidable (_ ∧ _))

theorem ofList_eq_iff {cs : List Char} {s : String} : String.ofList cs = s ↔ cs = s.toList :=
  ⟨fun h => by rw [← h, String.toList_ofList], fun h => by rw [h, String.ofList_toList]⟩

theorem IsFileName.toList_ne_nil {n : String} (h : IsFileName n) : n.toList ≠ [] := by
  intro e
  exact h.1 (String.toList_inj.mp (by rw [e]; rfl))

theorem IsFileName.stepOf? {n : String} (h : IsFileName n) :
    Path.stepOf? n.toList = some (.name n) := by
  have h₁ : n.toList ≠ ['.'] := fun e => h.2.1 (String.toList_inj.mp (by rw [e]; rfl))
  have h₂ : n.toList ≠ ['.', '.'] := fun e => h.2.2.1 (String.toList_inj.mp (by rw [e]; rfl))
  rw [Path.stepOf?, if_neg (by simp [h.toList_ne_nil, h₁]), if_neg h₂, String.ofList_toList]

theorem isFileName_of_stepOf? {piece : List Char} {n : String} (hsep : '/' ∉ piece)
    (h : Path.stepOf? piece = some (.name n)) : IsFileName n ∧ n.toList = piece := by
  rw [Path.stepOf?] at h
  split at h
  · simp at h
  · rename_i h₁
    split at h
    · simp at h
    · rename_i h₂
      simp only [Option.some.injEq, Step.name.injEq] at h
      subst h
      have hl : (String.ofList piece).toList = piece := String.toList_ofList
      refine ⟨⟨?_, ?_, ?_, by rwa [hl]⟩, hl⟩
      · intro e; rw [e] at hl; exact h₁ (Or.inl hl.symm)
      · intro e; rw [e] at hl; exact h₁ (Or.inr hl.symm)
      · intro e; rw [e] at hl; exact h₂ hl.symm

theorem filterMap_stepOf?_names {ns : List String} (h : ∀ n ∈ ns, IsFileName n) :
    (ns.map String.toList).filterMap Path.stepOf? = ns.map .name := by
  induction ns with
  | nil => rfl
  | cons n ns ih =>
    rw [List.map_cons, List.filterMap_cons_some (h n List.mem_cons_self).stepOf?,
      ih fun m hm => h m (List.mem_cons_of_mem n hm)]
    rfl

/-! ## Paths that are the same -/

theorem same_iff {p q : Path} : p.same q = true ↔ p.steps = q.steps := beq_iff_eq

theorem same_comm (p q : Path) : p.same q = q.same p := by
  rw [Bool.eq_iff_iff, same_iff, same_iff, eq_comm]

theorem same_congr {p q r : Path} (h : q.same r = true) : p.same q = p.same r := by
  rw [same, same, same_iff.mp h]

theorem under_iff {p root : Path} : p.under root = true ↔ root.steps <+: p.steps :=
  List.isPrefixOf_iff_prefix

theorem names_inj {ns ms : List String} (h : ns.map Step.name = ms.map Step.name) : ns = ms :=
  (List.map_inj_right fun _ _ e => Step.name.inj e).mp h

/-! ## Absolute paths -/

/-- The pieces of a path after the leading separator. -/
def tailPieces (p : Path) : List (List Char) := (pieces p.text.toList).drop 1

/-- The pieces after the leading separator, without the empty one after a trailing separator. -/
def bodyPieces (p : Path) : List (List Char) :=
  if p.text.toList.getLast? = some '/' then p.tailPieces.dropLast else p.tailPieces

theorem isAbsolute_iff {p : Path} : p.isAbsolute = true ↔ ∃ t, p.text.toList = '/' :: t := by
  rw [isAbsolute, beq_iff_eq]
  cases p.text.toList with
  | nil => simp
  | cons c t => simp

theorem tailPieces_of_toList {p : Path} {t : List Char} (h : p.text.toList = '/' :: t) :
    p.tailPieces = t.splitOn '/' := by
  rw [tailPieces, pieces, h, splitOn_sep_cons]
  rfl

theorem pieces_of_isAbsolute {p : Path} (h : p.isAbsolute = true) :
    pieces p.text.toList = [] :: p.tailPieces := by
  obtain ⟨t, ht⟩ := isAbsolute_iff.mp h
  rw [tailPieces_of_toList ht, pieces, ht, splitOn_sep_cons]

theorem steps_of_isAbsolute {p : Path} (h : p.isAbsolute = true) :
    p.steps = .root :: p.tailPieces.filterMap Path.stepOf? := by
  rw [steps, pieces_of_isAbsolute h]
  simp [h]

/-- A path whose first step is the root is absolute. -/
theorem isAbsolute_of_steps {p : Path} {ss : List Step} (h : p.steps = .root :: ss) :
    p.isAbsolute = true := by
  by_cases hn : p.isAbsolute = true
  · exact hn
  exfalso
  rw [steps] at h
  split at h
  · simp at h
  · rename_i first rest _
    by_cases h₁ : first = []
    · simp only [h₁, hn, if_true] at h
      cases hr : List.filterMap Path.stepOf? rest with
      | nil => simp [hr] at h
      | cons s ss' =>
        have hs : s ∈ List.filterMap Path.stepOf? rest := by rw [hr]; exact List.mem_cons_self
        obtain ⟨q, _, hq⟩ := List.mem_filterMap.mp hs
        simp only [hr, Bool.false_eq_true, if_false, List.nil_append, List.cons.injEq] at h
        rw [h.1, Path.stepOf?] at hq
        split at hq
        · simp at hq
        · split at hq <;> simp at hq
    · by_cases h₂ : first = ['.']
      · simp [h₂] at h
      · simp only [h₁, h₂, if_false, Path.stepOf?] at h
        split at h
        · simp_all
        · split at h <;> simp at h

/-- A trailing separator adds one empty piece. -/
theorem tailPieces_eq {p : Path} (h : p.isAbsolute = true) :
    p.tailPieces = p.bodyPieces ∧ p.text.toList.getLast? ≠ some '/' ∨
      p.tailPieces = p.bodyPieces ++ [[]] ∧ p.text.toList.getLast? = some '/' := by
  by_cases hl : p.text.toList.getLast? = some '/'
  · refine Or.inr ⟨?_, hl⟩
    obtain ⟨t, ht⟩ := isAbsolute_iff.mp h
    rw [bodyPieces, if_pos hl, tailPieces_of_toList ht]
    rw [ht] at hl
    cases t with
    | nil => rfl
    | cons c t =>
      rw [List.getLast?_cons_cons] at hl
      obtain ⟨w, hw⟩ := List.getLast?_eq_some_iff.mp hl
      rw [hw, List.splitOn_append_cons_self, List.splitOn_nil, List.dropLast_concat]
  · exact Or.inl ⟨by rw [bodyPieces, if_neg hl], hl⟩

theorem filterMap_bodyPieces {p : Path} (h : p.isAbsolute = true) :
    p.bodyPieces.filterMap Path.stepOf? = p.tailPieces.filterMap Path.stepOf? := by
  rcases tailPieces_eq h with ⟨e, _⟩ | ⟨e, _⟩
  · rw [e]
  · rw [e, List.filterMap_append]
    simp [Path.stepOf?]

/-! ## Joining one name -/

/-- What is joined follows a separator, unless it starts at the root itself. -/
theorem toList_join_of_head? {p : Path} (h : p.isAbsolute = true) {tail : String}
    (ht : tail.toList.head? ≠ some '/') :
    (p.join tail).text.toList =
      p.text.toList ++ (if p.text.toList.getLast? = some '/' then [] else ['/']) ++ tail.toList := by
  have h₁ : ¬ (tail.toList.head? == some '/' ∨ p.text = "") := by
    rintro (e | e)
    · exact ht (beq_iff_eq.mp e)
    · obtain ⟨t, ht⟩ := isAbsolute_iff.mp h
      rw [e] at ht
      simp at ht
  rw [join, if_neg (by simpa using h₁)]
  by_cases hl : p.text.toList.getLast? = some '/'
  · rw [if_pos (by simpa using hl), if_pos hl, String.toList_append, List.append_nil]
  · rw [if_neg (by simpa using hl), if_neg hl, String.toList_append, String.toList_append]
    rfl

theorem toList_join {p : Path} (h : p.isAbsolute = true) {n : String} (hn : '/' ∉ n.toList) :
    (p.join n).text.toList =
      p.text.toList ++ (if p.text.toList.getLast? = some '/' then [] else ['/']) ++ n.toList :=
  toList_join_of_head? h fun e => hn (List.mem_of_head? e)

theorem isAbsolute_join {p : Path} (h : p.isAbsolute = true) {n : String} (hn : '/' ∉ n.toList) :
    (p.join n).isAbsolute = true := by
  obtain ⟨t, ht⟩ := isAbsolute_iff.mp h
  rw [isAbsolute_iff, toList_join h hn, ht]
  exact ⟨_, rfl⟩

/-- **Joining a name adds one piece.** -/
theorem tailPieces_join {p : Path} (h : p.isAbsolute = true) {n : String} (hn : '/' ∉ n.toList) :
    (p.join n).tailPieces = p.bodyPieces ++ [n.toList] := by
  obtain ⟨t, ht⟩ := isAbsolute_iff.mp h
  have hj := toList_join h hn
  rcases tailPieces_eq h with ⟨e, hl⟩ | ⟨e, hl⟩
  · rw [if_neg hl, ht, List.append_assoc, List.cons_append] at hj
    rw [tailPieces_of_toList hj, List.singleton_append, List.splitOn_append_cons_self,
      List.splitOn_eq_singleton hn, ← e, tailPieces_of_toList ht]
  · rw [if_pos hl, List.append_nil, ht, List.cons_append] at hj
    rw [tailPieces_of_toList ht] at e
    rw [tailPieces_of_toList hj]
    rw [ht] at hl
    cases t with
    | nil =>
      rw [List.splitOn_nil] at e
      have : p.bodyPieces = [] := by
        have := congrArg List.length e
        simp at this
        exact this
      rw [List.nil_append, List.splitOn_eq_singleton hn, this, List.nil_append]
    | cons c t =>
      rw [List.getLast?_cons_cons] at hl
      obtain ⟨w, hw⟩ := List.getLast?_eq_some_iff.mp hl
      rw [hw] at e ⊢
      rw [List.splitOn_append_cons_self, List.splitOn_nil, List.append_cancel_right_eq] at e
      rw [List.append_assoc, List.singleton_append, List.splitOn_append_cons_self,
        List.splitOn_eq_singleton hn, e]

/-- **Joining adds the step of what is joined**, if it is one. -/
theorem steps_join {p : Path} (h : p.isAbsolute = true) {n : String} (hn : '/' ∉ n.toList) :
    (p.join n).steps = p.steps ++ (Path.stepOf? n.toList).toList := by
  rw [steps_of_isAbsolute (isAbsolute_join h hn), steps_of_isAbsolute h, tailPieces_join h hn,
    List.filterMap_append, filterMap_bodyPieces h, List.cons_append]
  cases hs : Path.stepOf? n.toList <;> simp [hs]

theorem getLast?_join {p : Path} (h : p.isAbsolute = true) {n : String} (hn : IsFileName n) :
    (p.join n).text.toList.getLast? ≠ some '/' := by
  rw [toList_join h hn.2.2.2]
  intro e
  rw [List.getLast?_append, List.getLast?_eq_some_getLast hn.toList_ne_nil, Option.some_or,
    Option.some.injEq] at e
  exact hn.2.2.2 (e ▸ List.getLast_mem hn.toList_ne_nil)

theorem bodyPieces_join {p : Path} (h : p.isAbsolute = true) {n : String} (hn : IsFileName n) :
    (p.join n).bodyPieces = p.bodyPieces ++ [n.toList] := by
  rw [bodyPieces, if_neg (getLast?_join h hn), tailPieces_join h hn.2.2.2]

/-- Joining nothing but a separator adds no body piece. -/
theorem bodyPieces_join_empty {p : Path} (h : p.isAbsolute = true) :
    (p.join "").bodyPieces = p.bodyPieces := by
  have hsep : '/' ∉ "".toList := by simp
  have hlast : (p.join "").text.toList.getLast? = some '/' := by
    rw [toList_join h hsep]
    by_cases hl : p.text.toList.getLast? = some '/' <;> simp [hl]
  rw [bodyPieces, if_pos hlast, tailPieces_join h hsep, List.dropLast_concat]

theorem ext_toList {p q : Path} (h : p.text.toList = q.text.toList) : p = q :=
  congrArg Path.mk (String.toList_inj.mp h)

/-- An absolute path is known by its pieces. -/
theorem eq_of_tailPieces {p q : Path} (hp : p.isAbsolute = true) (hq : q.isAbsolute = true)
    (h : p.tailPieces = q.tailPieces) : p = q := by
  obtain ⟨t, ht⟩ := isAbsolute_iff.mp hp
  obtain ⟨u, hu⟩ := isAbsolute_iff.mp hq
  rw [tailPieces_of_toList ht, tailPieces_of_toList hu] at h
  have htu : t = u := by
    rw [← @List.intercalate_splitOn _ t _ _ '/', h, List.intercalate_splitOn]
  exact ext_toList (by rw [ht, hu, htu])

/-! ## Joining several names -/

/-- The path led on by names. -/
def extend (p : Path) (ns : List String) : Path := ns.foldl join p

@[simp] theorem extend_nil (p : Path) : p.extend [] = p := rfl

@[simp] theorem extend_cons (p : Path) (n : String) (ns : List String) :
    p.extend (n :: ns) = (p.join n).extend ns := rfl

theorem extend_append (p : Path) (ns ms : List String) :
    p.extend (ns ++ ms) = (p.extend ns).extend ms := by
  rw [extend, List.foldl_append]
  rfl

theorem extend_concat (p : Path) (ns : List String) (n : String) :
    p.extend (ns ++ [n]) = (p.extend ns).join n := extend_append p ns [n]

theorem notMem_of_isFileName {ns : List String} (h : ∀ n ∈ ns, IsFileName n) :
    ∀ n ∈ ns, '/' ∉ n.toList := fun n hn => (h n hn).2.2.2

theorem isAbsolute_extend_pieces : ∀ {ns : List String} {p : Path}, p.isAbsolute = true →
    (∀ n ∈ ns, '/' ∉ n.toList) → (p.extend ns).isAbsolute = true := by
  intro ns
  induction ns with
  | nil => intro p h _; exact h
  | cons n ns ih =>
    intro p h hn
    exact ih (isAbsolute_join h (hn n List.mem_cons_self))
      fun m hm => hn m (List.mem_cons_of_mem n hm)

theorem isAbsolute_extend {ns : List String} {p : Path} (h : p.isAbsolute = true)
    (hn : ∀ n ∈ ns, IsFileName n) : (p.extend ns).isAbsolute = true :=
  isAbsolute_extend_pieces h (notMem_of_isFileName hn)

/-- Pieces add the steps they stand for, if any. -/
theorem steps_extend_pieces : ∀ {ns : List String} {p : Path}, p.isAbsolute = true →
    (∀ n ∈ ns, '/' ∉ n.toList) →
      (p.extend ns).steps = p.steps ++ (ns.map String.toList).filterMap Path.stepOf? := by
  intro ns
  induction ns with
  | nil => intro p _ _; simp
  | cons n ns ih =>
    intro p h hn
    have hname := hn n List.mem_cons_self
    rw [extend_cons, ih (isAbsolute_join h hname) fun m hm => hn m (List.mem_cons_of_mem n hm),
      steps_join h hname, List.append_assoc, List.map_cons, List.filterMap_cons]
    cases Path.stepOf? n.toList <;> rfl

theorem steps_extend {ns : List String} {p : Path} (h : p.isAbsolute = true)
    (hn : ∀ n ∈ ns, IsFileName n) : (p.extend ns).steps = p.steps ++ ns.map .name := by
  rw [steps_extend_pieces h (notMem_of_isFileName hn), filterMap_stepOf?_names hn]

/-- What is joined to one root is told apart by its names. -/
theorem extend_same_iff {p q : Path} (hp : p.isAbsolute = true) (hq : q.isAbsolute = true)
    (hs : p.same q = true) {ns ms : List String} (hn : ∀ n ∈ ns, IsFileName n)
    (hm : ∀ n ∈ ms, IsFileName n) : (p.extend ns).same (q.extend ms) = true ↔ ns = ms := by
  rw [same_iff, steps_extend hp hn, steps_extend hq hm, same_iff.mp hs, List.append_cancel_left_eq]
  exact ⟨names_inj, congrArg _⟩

theorem bodyPieces_extend : ∀ {ns : List String} {p : Path}, p.isAbsolute = true →
    (∀ n ∈ ns, IsFileName n) → (p.extend ns).bodyPieces = p.bodyPieces ++ ns.map String.toList := by
  intro ns
  induction ns with
  | nil => intro p _ _; simp
  | cons n ns ih =>
    intro p h hn
    have hname := hn n List.mem_cons_self
    rw [extend_cons, ih (isAbsolute_join h hname.2.2.2) fun m hm => hn m (List.mem_cons_of_mem n hm),
      bodyPieces_join h hname, List.append_assoc]
    rfl

theorem bodyPieces_extend_pieces : ∀ {rs : List String} {p : Path}, p.isAbsolute = true →
    (∀ n ∈ rs, n = "" ∨ IsFileName n) →
      (p.extend rs).bodyPieces = p.bodyPieces ++ (rs.filter (· ≠ "")).map String.toList := by
  intro rs
  induction rs with
  | nil => intro p _ _; simp
  | cons n rs ih =>
    intro p h hn
    have hrest : ∀ m ∈ rs, m = "" ∨ IsFileName m := fun m hm => hn m (List.mem_cons_of_mem n hm)
    rcases hn n List.mem_cons_self with rfl | hname
    · rw [extend_cons, ih (isAbsolute_join h (by simp)) hrest, bodyPieces_join_empty h]
      rfl
    · rw [extend_cons, ih (isAbsolute_join h hname.2.2.2) hrest, bodyPieces_join h hname,
        List.filter_cons_of_pos (by simpa using hname.1), List.append_assoc]
      rfl

/-- A path that ends in a name has no trailing separator. -/
theorem tailPieces_extend {ns : List String} (hne : ns ≠ []) {p : Path} (h : p.isAbsolute = true)
    (hn : ∀ n ∈ ns, IsFileName n) :
    (p.extend ns).tailPieces = p.bodyPieces ++ ns.map String.toList := by
  rw [← List.dropLast_concat_getLast hne, extend_concat]
  have hlast := hn _ (List.getLast_mem hne)
  have hinit : ∀ m ∈ ns.dropLast, IsFileName m := fun m hm => hn m (List.dropLast_subset ns hm)
  rw [tailPieces_join (isAbsolute_extend h hinit) hlast.2.2.2, bodyPieces_extend h hinit,
    List.map_append, List.append_assoc]
  rfl

theorem pathOf_concat {loc : Location} (h : ∀ n ∈ loc, IsFileName n) {n : String}
    (hn : '/' ∉ n.toList) (ih : FileTree.pathOf loc = extend ⟨"/"⟩ loc) :
    FileTree.pathOf (loc ++ [n]) = (FileTree.pathOf loc).join n := by
  have habs : (FileTree.pathOf loc).isAbsolute = true := ih ▸ isAbsolute_extend rfl h
  refine ext_toList ?_
  rw [toList_join habs hn]
  by_cases hd : loc = []
  · subst hd
    simp [FileTree.pathOf]
  · -- the path so far ends in a name, so that a separator is put in
    have hlast : (FileTree.pathOf loc).text.toList.getLast? ≠ some '/' := by
      have hinit : ∀ m ∈ loc.dropLast, IsFileName m := fun m hm => h m (List.dropLast_subset loc hm)
      rw [ih, ← List.dropLast_concat_getLast hd, extend_concat]
      exact getLast?_join (isAbsolute_extend rfl hinit) (h _ (List.getLast_mem hd))
    rw [if_neg hlast, FileTree.pathOf, FileTree.pathOf,
      String.intercalate_append_of_ne_nil hd (by simp), String.intercalate_singleton]
    simp

/-- **The plain spelling of a location** is the root led on by its names. -/
theorem pathOf_eq_extend {loc : Location} (h : ∀ n ∈ loc, IsFileName n) :
    FileTree.pathOf loc = extend ⟨"/"⟩ loc := by
  induction hl : loc.length generalizing loc with
  | zero =>
    rw [List.length_eq_zero_iff.mp hl]
    rfl
  | succ k ih =>
    have hne : loc ≠ [] := by rintro rfl; simp at hl
    have hinit : ∀ m ∈ loc.dropLast, IsFileName m := fun m hm => h m (List.dropLast_subset loc hm)
    have ih := ih hinit (by simp [hl])
    rw [← List.dropLast_concat_getLast hne, extend_concat, ← ih]
    exact pathOf_concat hinit (h _ (List.getLast_mem hne)).2.2.2 ih

/-! ## What is left after a root -/

theorem dropSteps_append : ∀ (body rest : List (List Char)) (k : Nat),
    (body.filterMap Path.stepOf?).length = k →
      ∃ idle, (∀ q ∈ idle, Path.stepOf? q = none) ∧
        dropSteps k (body ++ rest) = idle ++ rest := by
  intro body rest
  induction body with
  | nil =>
    intro k h
    rw [← h]
    exact ⟨[], by simp, by simp [dropSteps]⟩
  | cons q body ih =>
    intro k h
    cases hq : Path.stepOf? q with
    | none =>
      rw [List.filterMap_cons_none hq] at h
      cases k with
      | zero =>
        have hnone : ∀ x ∈ body, Path.stepOf? x = none :=
          List.filterMap_eq_nil_iff.mp (List.length_eq_zero_iff.mp h)
        refine ⟨q :: body, ?_, rfl⟩
        intro x hx
        rcases List.mem_cons.mp hx with rfl | hx
        · exact hq
        · exact hnone x hx
      | succ k =>
        obtain ⟨idle, hidle, he⟩ := ih (k + 1) h
        refine ⟨idle, hidle, ?_⟩
        rw [List.cons_append, dropSteps, hq]
        exact he
    | some s =>
      rw [List.filterMap_cons_some hq, List.length_cons] at h
      cases k with
      | zero => omega
      | succ k =>
        obtain ⟨idle, hidle, he⟩ := ih k (by omega)
        refine ⟨idle, hidle, ?_⟩
        rw [List.cons_append, dropSteps, hq]
        exact he

theorem dropWhile_idle {idle rest : List (List Char)} (hi : ∀ q ∈ idle, Path.stepOf? q = none)
    (hr : ∀ q ∈ rest.head?, Path.stepOf? q ≠ none) :
    (idle ++ rest).dropWhile (fun q => (Path.stepOf? q).isNone) = rest := by
  induction idle with
  | nil =>
    cases rest with
    | nil => rfl
    | cons q rest =>
      have := hr q (by simp)
      rw [List.nil_append, List.dropWhile_cons_of_neg (by simpa using this)]
  | cons q idle ih =>
    have hq := hi q List.mem_cons_self
    rw [List.cons_append, List.dropWhile_cons_of_pos (by simp [hq])]
    exact ih fun x hx => hi x (List.mem_cons_of_mem q hx)

theorem trimPieces_eq {ps : List (List Char)} (h : ∀ q ∈ ps.getLast?, Path.stepOf? q ≠ none) :
    trimPieces ps = ps := by
  have := @dropWhile_idle [] ps.reverse (by simp)
    (by rwa [List.head?_reverse])
  rw [trimPieces, ← List.nil_append ps.reverse, this, List.reverse_reverse]

theorem under_extend {root base : Path} (h : base.isAbsolute = true) (hs : base.same root = true)
    {ns : List String} (hn : ∀ n ∈ ns, IsFileName n) : (base.extend ns).under root = true := by
  rw [under_iff, steps_extend h hn, same_iff.mp hs]
  exact List.prefix_append _ _

/-- **After any spelling of a root**, what is left of a path are the names joined to it. -/
theorem relativeTo?_extend {root base : Path} (h : base.isAbsolute = true)
    (hs : base.same root = true) {ns : List String} (hne : ns ≠ []) (hn : ∀ n ∈ ns, IsFileName n) :
    relativeTo? root (base.extend ns) =
      some (String.ofList (List.intercalate ['/'] (ns.map String.toList))) := by
  have hstep : ∀ q ∈ ns.map String.toList, Path.stepOf? q ≠ none := by
    intro q hq
    obtain ⟨n, hm, rfl⟩ := List.mem_map.mp hq
    simp [(hn n hm).stepOf?]
  have hsteps : root.steps = .root :: base.bodyPieces.filterMap Path.stepOf? := by
    rw [← same_iff.mp hs, steps_of_isAbsolute h, filterMap_bodyPieces h]
  have hpieces : (pieces (base.extend ns).text.toList).drop 1 =
      base.bodyPieces ++ ns.map String.toList := tailPieces_extend hne h hn
  obtain ⟨idle, hidle, hdrop⟩ := dropSteps_append base.bodyPieces (ns.map String.toList) _ rfl
  have hrest : (idle ++ ns.map String.toList).dropWhile (fun q => (Path.stepOf? q).isNone) =
      ns.map String.toList :=
    dropWhile_idle hidle fun q hq => hstep q (List.mem_of_mem_head? hq)
  have htrim : trimPieces (ns.map String.toList) = ns.map String.toList :=
    trimPieces_eq fun q hq => hstep q (List.mem_of_getLast? hq)
  rw [relativeTo?, if_neg (by simp [under_extend h hs hn]), hsteps]
  simp only [hpieces, hdrop, hrest, htrim]

/-- Of the root itself nothing is left. -/
theorem relativeTo?_same {root p : Path} (h : p.isAbsolute = true) (hs : p.same root = true) :
    relativeTo? root p = some "" := by
  rw [same_iff] at hs
  have hunder : p.under root = true := under_iff.mpr ⟨[], by rw [List.append_nil, hs]⟩
  obtain ⟨idle, hidle, hdrop⟩ := dropSteps_append p.tailPieces [] _ rfl
  have hrest : idle.dropWhile (fun q => (Path.stepOf? q).isNone) = [] := by
    have := @dropWhile_idle idle [] hidle (by simp)
    rwa [List.append_nil] at this
  rw [List.append_nil, List.append_nil, tailPieces] at hdrop
  rw [relativeTo?, if_neg (by simp [hunder]), ← hs, steps_of_isAbsolute h, tailPieces]
  simp only [hdrop, hrest]
  rfl

theorem dropSteps_suffix (n : Nat) (ps : List (List Char)) : dropSteps n ps <:+ ps := by
  fun_induction dropSteps n ps with
  | case1 ps => exact List.suffix_refl ps
  | case2 => exact List.suffix_refl []
  | case3 n p ps _ ih => exact ih.trans (List.suffix_cons p ps)
  | case4 n p ps _ ih => exact ih.trans (List.suffix_cons p ps)

theorem trimPieces_prefix (ps : List (List Char)) : trimPieces ps <+: ps := by
  rw [trimPieces, ← List.reverse_suffix, List.reverse_reverse]
  exact List.dropWhile_suffix _

/-- Pieces of which the first is a step are joined to a text that starts in that step. -/
theorem head?_intercalate_ne {ps : List (List Char)} (hfirst : ∀ q ∈ ps.head?, q ≠ [] ∧ '/' ∉ q) :
    (List.intercalate ['/'] ps).head? ≠ some '/' := by
  cases ps with
  | nil => simp
  | cons q ps =>
    obtain ⟨hne, hsep⟩ := hfirst q rfl
    obtain ⟨c, q, rfl⟩ := List.exists_cons_of_ne_nil hne
    rw [List.intercalate_cons_cons_left, List.head?_cons, ne_eq, Option.some.injEq]
    exact fun hc => hsep (hc ▸ List.mem_cons_self)

/-- What is left after an absolute root is not absolute. -/
theorem head?_relativeTo?_ne {root p : Path} {rest : String} (h : root.isAbsolute = true)
    (hrest : relativeTo? root p = some rest) : rest.toList.head? ≠ some '/' := by
  rw [relativeTo?, steps_of_isAbsolute h] at hrest
  split at hrest
  · cases hrest
  · dsimp only at hrest
    rw [Option.some.injEq] at hrest
    rw [← hrest, String.toList_ofList]
    generalize hps : dropSteps _ _ = ps
    have hpieces : ps ⊆ pieces p.text.toList :=
      hps ▸ fun q hq => List.mem_of_mem_drop ((dropSteps_suffix _ _).subset hq)
    refine head?_intercalate_ne fun q hq => ?_
    -- the first piece that is left is the first that is a step
    have hhead : (ps.dropWhile fun q => (stepOf? q).isNone).head? = some q := by
      obtain ⟨tail, htail⟩ := List.head?_eq_some_iff.mp hq
      obtain ⟨more, hmore⟩ := trimPieces_prefix (ps.dropWhile fun q => (stepOf? q).isNone)
      rw [← hmore, htail]
      rfl
    have hstep : ¬(stepOf? q).isNone = true := by
      have hnot := List.head?_dropWhile_not (fun q => (stepOf? q).isNone) ps
      rw [hhead] at hnot
      exact Bool.eq_false_iff.mp hnot
    have hmem : q ∈ pieces p.text.toList :=
      hpieces ((List.dropWhile_suffix _).subset (List.mem_of_mem_head? hhead))
    exact ⟨fun hnil => hstep (by rw [hnil]; rfl), Text.notMem_of_mem_splitOn hmem⟩

end SiteAssist.Path
