import SiteAssist.Glob.Walk
import SiteAssist.Proofs.FileTree.Locating
import SiteAssist.Proofs.Glob.Components

/-!
# What a search finds

`walk` goes through a tree one component at a time.  This file says where it ends up.

* `mem_descend`: the names below a directory are all those that are listed on the way (`Listed`).
  The fuel never runs out, since nothing lies deeper than the tree is high.
* `mem_walk_collapse`: components of which the last names something lead to **the paths along whose
  names they lead**.
* `mem_walk_escaped`: an escaped name leads to the name itself, whatever characters it has.

A component that starts with a dot is not among these.  The walk looks for `.` and `..` at such a
component, which no directory lists.
-/

namespace SiteAssist.Glob

open SiteAssist.Path (IsFileName extend)

variable {tree : FileTree}

/-! ## Listed names -/

/-- Each of the names is listed where those before it lead. -/
def Listed (tree : FileTree) : Path → List String → Prop
  | _, [] => True
  | p, n :: ns => n ∈ tree.names p ∧ Listed tree (p.join n) ns

theorem listed_append : ∀ {ns ms : List String} {p : Path},
    Listed tree p (ns ++ ms) ↔ Listed tree p ns ∧ Listed tree (p.extend ns) ms := by
  intro ns
  induction ns with
  | nil => intro ms p; simp [Listed]
  | cons n ns ih =>
    intro ms p
    rw [List.cons_append, Listed, Listed, ih, Path.extend_cons, and_assoc]

theorem listed_singleton {p : Path} {n : String} : Listed tree p [n] ↔ n ∈ tree.names p := by
  simp [Listed]

theorem Listed.isFileName (hw : tree.WellFormed) : ∀ {ns : List String} {p : Path},
    Listed tree p ns → ∀ n ∈ ns, IsFileName n := by
  intro ns
  induction ns with
  | nil => intro p _ n hn; simp at hn
  | cons m ns ih =>
    intro p h n hn
    rcases List.mem_cons.mp hn with rfl | hn
    · exact hw.isFileName_of_mem_names h.1
    · exact ih h.2 n hn

/-- Names that lead to something are listed. -/
theorem listed_of_present : ∀ {ns : List String} {p : Path}, p.isAbsolute = true →
    (∀ n ∈ ns, IsFileName n) → tree.present (p.extend ns) = true → Listed tree p ns := by
  intro ns
  induction ns with
  | nil => intro p _ _ _; trivial
  | cons n ns ih =>
    intro p hp hn h
    have hname := hn n List.mem_cons_self
    have hrest : ∀ m ∈ ns, IsFileName m := fun m hm => hn m (List.mem_cons_of_mem n hm)
    have hjoin := Path.isAbsolute_join hp hname.2.2.2
    have hpresent : tree.present (p.join n) = true :=
      FileTree.present_of_present_extend hjoin (Path.notMem_of_isFileName hrest) h
    exact ⟨(FileTree.present_join_iff hp hname).mp hpresent, ih hjoin hrest h⟩

/-- The names on the way are no more than the tree is high. -/
theorem Listed.length_le (hw : tree.WellFormed) {ns : List String} {p : Path}
    (hp : p.isAbsolute = true) (h : Listed tree p ns) : ns.length ≤ tree.height := by
  by_cases hne : ns = []
  · simp [hne]
  · rw [← List.dropLast_concat_getLast hne] at h ⊢
    have hn := h.isFileName hw
    obtain ⟨hinit, hlast⟩ := listed_append.mp h
    obtain ⟨l, hl, _, e, hm⟩ := FileTree.mem_names.mp (listed_singleton.mp hlast)
    have hle := FileTree.length_le_height hm
    have hnames : ∀ m ∈ ns.dropLast, IsFileName m := fun m hm => hn m (List.mem_append_left _ hm)
    rw [FileTree.locate?_extend hp hnames] at hl
    obtain ⟨l₀, _, hf⟩ := Option.bind_eq_some_iff.mp hl
    rw [FileTree.follow_eq_some hnames hf] at hle
    simp only [List.length_append] at hle ⊢
    omega

theorem mem_descend {found : Path → String → List Path} {q : Path} :
    ∀ {fuel : Nat} {p : Path}, q ∈ descend tree found fuel p ↔
      ∃ ds n, ds.length < fuel ∧ Listed tree p (ds ++ [n]) ∧
        q ∈ found (p.extend (ds ++ [n])) n := by
  intro fuel
  induction fuel with
  | zero => intro p; simp [descend]
  | succ fuel ih =>
    intro p
    rw [descend, List.mem_flatMap]
    simp only [List.mem_append, ih]
    constructor
    · rintro ⟨n, hn, hq | ⟨ds, m, hd, hl, hq⟩⟩
      · exact ⟨[], n, by simp, ⟨hn, trivial⟩, hq⟩
      · exact ⟨n :: ds, m, by simpa using hd, ⟨hn, hl⟩, hq⟩
    · rintro ⟨ds, m, hd, hl, hq⟩
      cases ds with
      | nil => exact ⟨m, hl.1, Or.inl hq⟩
      | cons n ds => exact ⟨n, hl.1, Or.inr ⟨ds, m, by simpa using hd, hl.2, hq⟩⟩

/-! ## Components without wildcards -/

theorem denotes_literals {s t : List Char} : Denotes (s.map .literal) t ↔ t = s := by
  induction s generalizing t with
  | nil => exact denotes_nil_iff
  | cons c s ih =>
    rw [List.map_cons, denotes_single_cons rfl]
    simp only [ih, Token.fits_literal, beq_iff_eq]
    constructor
    · rintro ⟨d, r, rfl, rfl, rfl⟩
      rfl
    · rintro rfl
      exact ⟨c, s, rfl, rfl, rfl⟩

/-- The character that a token stands for by itself. -/
def Token.char? : Token → Option Char
  | .literal c => some c
  | _ => none

theorem mapM_char?_eq_some_iff : ∀ {ts : List Token} {cs : List Char},
    ts.mapM Token.char? = some cs ↔ ts = cs.map .literal := by
  intro ts
  induction ts with
  | nil => intro cs; cases cs <;> simp
  | cons t ts ih =>
    intro cs
    cases t with
    | literal c =>
      rw [List.mapM_cons]
      cases cs with
      | nil => simp [Token.char?, Option.bind_eq_some_iff]
      | cons d cs =>
        rw [List.map_cons, List.cons.injEq, ← ih, Token.literal.injEq]
        simp [Token.char?, Option.bind_eq_some_iff, and_comm]
    | _ => cases cs <;> simp [Token.char?, List.mapM_cons]

theorem literal?_eq_some_iff {c : Pattern} {name : String} :
    c.literal? = some name ↔ c.tokens = name.toList.map .literal := by
  have hchars : c.literal? = (c.tokens.mapM Token.char?).map String.ofList := rfl
  rw [hchars, Option.map_eq_some_iff]
  constructor
  · rintro ⟨cs, h, rfl⟩
    rw [mapM_char?_eq_some_iff.mp h, String.toList_ofList]
  · intro h
    exact ⟨name.toList, mapM_char?_eq_some_iff.mpr h, String.ofList_toList⟩

theorem isRecursive_eq_false {c : Pattern} (h : Inner c.tokens) : c.isRecursive = false := by
  rw [Pattern.isRecursive, List.any_eq_false]
  intro t ht
  simpa using (h t ht).1

theorem isRecursive_of_depth {c : Pattern} (h : c.tokens = [.anyDepth]) : c.isRecursive = true := by
  rw [Pattern.isRecursive, h]
  rfl

/-! ## One component -/

/-- A component that names what a directory lists. -/
structure Pattern.IsName (c : Pattern) : Prop where
  named : Named c.tokens
  placed : Placed true c.tokens
  undotted : c.tokens.head? ≠ some (.literal '.')

theorem Pattern.IsName.isFileName {c : Pattern} (h : c.IsName) {name : String}
    (hl : c.tokens = name.toList.map .literal) : IsFileName name := by
  have hne : name.toList ≠ [] := by
    intro e
    rw [e] at hl
    exact h.named.ne_nil hl
  have hdot : name.toList.head? ≠ some '.' := by
    intro e
    apply h.undotted
    rw [hl, List.head?_map, e]
    rfl
  refine ⟨?_, ?_, ?_, ?_⟩
  · rintro rfl; exact hne rfl
  · rintro rfl; exact hdot rfl
  · rintro rfl; exact hdot rfl
  · intro hm
    have := h.named.inner (.literal '/') (by rw [hl]; exact List.mem_map_of_mem hm)
    exact this.2 rfl

theorem mem_walk_literal {c : Pattern} {name : String} (h : c.literal? = some name)
    (hne : ¬(name = "." ∨ name = "..")) {rest : List Pattern} {p q : Path} :
    q ∈ walk tree (c :: rest) p ↔
      tree.present (p.join name) = true ∧ q ∈ walk tree rest (p.join name) := by
  have hwalk : walk tree (c :: rest) p =
      if tree.present (p.join name) = true then walk tree rest (p.join name) else [] := by
    cases rest <;> simp only [walk, h, hne, if_false]
  rw [hwalk]
  by_cases hp : tree.present (p.join name) = true <;> simp [hp]

/-- What a component with wildcards is tried on: the names of the directory. -/
theorem mem_walk_wild {c : Pattern} (h : c.literal? = none) (hr : c.isRecursive = false)
    (hd : dotNames c = []) (hc : Placed true c.tokens) {rest : List Pattern} {p q : Path} :
    q ∈ walk tree (c :: rest) p ↔
      ∃ n ∈ tree.names p, Denotes c.tokens n.toList ∧ q ∈ walk tree rest (p.join n) := by
  have hwalk : walk tree (c :: rest) p =
      if ¬tree.isDirectory p = true then []
      else (tree.names p).flatMap fun n =>
        if c.fits n.toList = true then walk tree rest (p.join n) else [] := by
    cases rest <;> simp only [walk, h, hr, hd, Bool.false_eq_true, if_false, List.flatMap_nil,
      List.nil_append]
  rw [hwalk]
  by_cases hdir : tree.isDirectory p = true
  · rw [if_neg (by simp [hdir]), List.mem_flatMap]
    constructor
    · rintro ⟨n, hn, hq⟩
      split at hq
      · rename_i hfit
        exact ⟨n, hn, (Pattern.fits_iff hc _).mp hfit, hq⟩
      · simp at hq
    · rintro ⟨n, hn, hfit, hq⟩
      refine ⟨n, hn, ?_⟩
      rw [if_pos ((Pattern.fits_iff hc _).mpr hfit)]
      exact hq
  · rw [if_pos hdir]
    constructor
    · intro hq; simp at hq
    · rintro ⟨n, hn, _⟩
      exact absurd (FileTree.isDirectory_of_mem_names hn) hdir

/-- A component leads along the listed names that it stands for. -/
theorem mem_walk_name {c : Pattern} (hc : c.IsName) {rest : List Pattern} {p q : Path}
    (hp : p.isAbsolute = true) :
    q ∈ walk tree (c :: rest) p ↔
      ∃ n ∈ tree.names p, Denotes c.tokens n.toList ∧ q ∈ walk tree rest (p.join n) := by
  cases hl : c.literal? with
  | some name =>
    have htok := literal?_eq_some_iff.mp hl
    have hname := hc.isFileName htok
    rw [mem_walk_literal hl (not_or.mpr ⟨hname.2.1, hname.2.2.1⟩),
      FileTree.present_join_iff hp hname, htok]
    simp only [denotes_literals, String.toList_inj]
    constructor
    · rintro ⟨hm, hq⟩
      exact ⟨name, hm, rfl, hq⟩
    · rintro ⟨_, hm, rfl, hq⟩
      exact ⟨hm, hq⟩
  | none =>
    exact mem_walk_wild hl (isRecursive_eq_false hc.named.inner) (if_neg hc.undotted) hc.placed

/-- A `**` leads down along any listed names, to where the component after it is tried. -/
theorem mem_walk_depth (hw : tree.WellFormed) {d c : Pattern} (hd : d.tokens = [.anyDepth])
    (hc : c.IsName) {rest : List Pattern} {p q : Path} (hp : p.isAbsolute = true) :
    q ∈ walk tree (d :: c :: rest) p ↔
      ∃ ds, Listed tree p ds ∧ q ∈ walk tree (c :: rest) (p.extend ds) := by
  have hlit : d.literal? = none := by
    rw [← Option.not_isSome_iff_eq_none, Option.isSome_iff_exists]
    rintro ⟨name, h⟩
    have := literal?_eq_some_iff.mp h
    rw [hd] at this
    cases hs : name.toList <;> simp [hs] at this
  have hwalk : walk tree (d :: c :: rest) p =
      if ¬tree.isDirectory p = true then []
      else descend tree (fun q n => if c.fits n.toList = true then walk tree rest q else [])
        (tree.height + 1) p := by
    simp only [walk, hlit, isRecursive_of_depth hd, if_true]
  have hnext : ∀ {ds : List String}, Listed tree p ds → (q ∈ walk tree (c :: rest) (p.extend ds) ↔
      ∃ n, Listed tree p (ds ++ [n]) ∧ Denotes c.tokens n.toList ∧
        q ∈ walk tree rest (p.extend (ds ++ [n]))) := by
    intro ds hds
    rw [mem_walk_name hc (Path.isAbsolute_extend hp (hds.isFileName hw))]
    simp only [listed_append, listed_singleton, Path.extend_concat, hds, true_and]
  rw [hwalk]
  by_cases hdir : tree.isDirectory p = true
  · rw [if_neg (by simp [hdir]), mem_descend]
    constructor
    · rintro ⟨ds, n, _, hl, hq⟩
      split at hq
      · rename_i hfit
        have hds := (listed_append.mp hl).1
        exact ⟨ds, hds, (hnext hds).mpr ⟨n, hl, (Pattern.fits_iff hc.placed _).mp hfit, hq⟩⟩
      · simp at hq
    · rintro ⟨ds, hds, hq⟩
      obtain ⟨n, hl, hfit, hq⟩ := (hnext hds).mp hq
      refine ⟨ds, n, Nat.lt_succ_of_le (hds.length_le hw hp), hl, ?_⟩
      rw [if_pos ((Pattern.fits_iff hc.placed _).mpr hfit)]
      exact hq
  · rw [if_pos hdir]
    constructor
    · intro hq; simp at hq
    · -- whatever the `**` takes, the first name on the way is listed in the directory
      rintro ⟨ds, hds, hq⟩
      obtain ⟨n, hl, _⟩ := (hnext hds).mp hq
      cases ds with
      | nil => exact absurd (FileTree.isDirectory_of_mem_names hl.1) hdir
      | cons _ _ => exact absurd (FileTree.isDirectory_of_mem_names hl.1) hdir

/-! ## All components -/

/-- Components of which the last names something, as patterns. -/
inductive Trail : List Pattern → Prop
  | last {c : Pattern} : c.IsName → Trail [c]
  | name {c : Pattern} {cs : List Pattern} : c.IsName → Trail cs → Trail (c :: cs)
  | depth {d : Pattern} {cs : List Pattern} : d.tokens = [.anyDepth] → Trail cs → Trail (d :: cs)

theorem Trail.route {cs : List Pattern} (h : Trail cs) : Route (cs.map (·.tokens)) := by
  induction h with
  | last hc => exact .last hc.named
  | name hc _ ih => exact .name hc.named ih
  | @depth d cs hd _ ih =>
    rw [List.map_cons, hd]
    exact .depth ih

theorem collapse_cons {c : Pattern} (h : c.isRecursive = false) (cs : List Pattern) :
    collapse (c :: cs) = c :: collapse cs := by
  cases cs with
  | nil => rfl
  | cons b cs => rw [collapse, h, Bool.false_and, if_neg (by simp)]

/-- **The search finds the paths along whose names the components lead.** -/
theorem mem_walk_collapse (hw : tree.WellFormed) {cs : List Pattern} (hcs : Trail cs) {q : Path} :
    ∀ p : Path, p.isAbsolute = true → (q ∈ walk tree (collapse cs) p ↔
      ∃ ns, Listed tree p ns ∧ Leads (cs.map (·.tokens)) (ns.map String.toList) ∧
        q = p.extend ns) := by
  -- a component that names something takes one name, whatever comes after it
  have step : ∀ {c : Pattern} (cs : List Pattern), c.IsName →
      (∀ p : Path, p.isAbsolute = true → (q ∈ walk tree (collapse cs) p ↔
        ∃ ns, Listed tree p ns ∧ Leads (cs.map (·.tokens)) (ns.map String.toList) ∧
          q = p.extend ns)) →
      ∀ p : Path, p.isAbsolute = true → (q ∈ walk tree (collapse (c :: cs)) p ↔
        ∃ ns, Listed tree p ns ∧ Leads ((c :: cs).map (·.tokens)) (ns.map String.toList) ∧
          q = p.extend ns) := by
    intro c cs hc ih p hp
    rw [collapse_cons (isRecursive_eq_false hc.named.inner), mem_walk_name hc hp, List.map_cons]
    simp only [leads_name_cons hc.named.ne_depth]
    constructor
    · rintro ⟨n, hn, hfit, hq⟩
      have hjoin := Path.isAbsolute_join hp (hw.isFileName_of_mem_names hn).2.2.2
      obtain ⟨ns, hl, hlead, rfl⟩ := (ih _ hjoin).mp hq
      exact ⟨n :: ns, ⟨hn, hl⟩, ⟨_, _, rfl, hfit, hlead⟩, rfl⟩
    · rintro ⟨ns, hl, ⟨m, rest, hm, hfit, hlead⟩, rfl⟩
      obtain ⟨n, ns', rfl, rfl, rfl⟩ := List.map_eq_cons_iff.mp hm
      have hjoin := Path.isAbsolute_join hp (hw.isFileName_of_mem_names hl.1).2.2.2
      exact ⟨n, hl.1, hfit, (ih _ hjoin).mpr ⟨ns', hl.2, hlead, rfl⟩⟩
  induction hcs with
  | @last c hc =>
    refine step [] hc fun p _ => ?_
    rw [show collapse ([] : List Pattern) = [] from rfl, walk, List.mem_singleton]
    constructor
    · rintro rfl
      exact ⟨[], trivial, .done, rfl⟩
    · rintro ⟨ns, _, hlead, rfl⟩
      cases ns with
      | nil => rfl
      | cons n ns => cases hlead
  | name hc _ ih => exact step _ hc ih
  | @depth d cs hd hcs ih =>
    intro p hp
    cases hcs with
    | last hc | name hc _ =>
      rw [collapse, isRecursive_eq_false hc.named.inner, Bool.and_false, if_neg (by simp),
        collapse_cons (isRecursive_eq_false hc.named.inner), mem_walk_depth hw hd hc hp]
      rw [collapse_cons (isRecursive_eq_false hc.named.inner)] at ih
      rw [List.map_cons, hd]
      simp only [leads_depth_cons]
      constructor
      · rintro ⟨ds, hds, hq⟩
        obtain ⟨ns, hl, hlead, rfl⟩ :=
          (ih _ (Path.isAbsolute_extend hp (hds.isFileName hw))).mp hq
        refine ⟨ds ++ ns, listed_append.mpr ⟨hds, hl⟩, ⟨_, _, List.map_append, hlead⟩, ?_⟩
        rw [Path.extend_append]
      · rintro ⟨ns, hl, ⟨_, _, hm, hlead⟩, rfl⟩
        obtain ⟨ds, rest, rfl, rfl, rfl⟩ := List.map_eq_append_iff.mp hm
        obtain ⟨hds, hrest⟩ := listed_append.mp hl
        refine ⟨ds, hds, (ih _ (Path.isAbsolute_extend hp (hds.isFileName hw))).mpr ?_⟩
        exact ⟨rest, hrest, hlead, Path.extend_append p ds rest⟩
    | @depth d' cs' hd' _ =>
      rw [collapse, isRecursive_of_depth hd, isRecursive_of_depth hd', Bool.and_self,
        if_pos rfl, ih p hp]
      simp only [List.map_cons, hd, hd', leads_depth_depth]

/-! ## Escaped names -/

/-- The token that an escaped character is read as. -/
def escapedToken (c : Char) : Token := if isMeta c then .within [.single c] else .literal c

theorem reads_escape : ∀ (s : List Char) (b : Bool), Reads b (escape s) (s.map escapedToken) := by
  intro s
  induction s with
  | nil => intro b; exact .nil
  | cons c s ih =>
    intro b
    rw [escape, List.flatMap_cons, ← escape, List.map_cons, escapedToken]
    by_cases hm : isMeta c = true
    · rw [if_pos hm, if_pos hm]
      refine .cls ?_ (ih false)
      have hbang : c ≠ '!' := by rintro rfl; simp [isMeta] at hm
      have hclass : classItems [c] = [.single c] := by simp [classItems]
      show parseClass? (c :: ']' :: escape s) = _
      rw [parseClass?]
      · simp [Text.cutAtFirst?, hclass]
      · intro _ _ h _
        exact hbang h
      · intro h _
        exact hbang h
    · rw [if_neg hm, if_neg hm]
      simp only [isMeta, Bool.or_eq_true, beq_iff_eq, not_or] at hm
      exact .lit hm.1.1.2 hm.1.1.1 hm.1.2 (ih _)

theorem denotes_escaped {s t : List Char} (hs : '/' ∉ s) :
    Denotes (s.map escapedToken) t ↔ t = s := by
  induction s generalizing t with
  | nil => exact denotes_nil_iff
  | cons c s ih =>
    have hsingle : (escapedToken c).isSingle = true := by
      rw [escapedToken]
      split <;> rfl
    have hfits : ∀ d, (escapedToken c).fits d = true ↔ d = c := by
      intro d
      rw [escapedToken]
      split
      · simp only [Token.fits_within, ClassItem.has, List.any_cons, List.any_nil, Bool.or_false,
          Bool.and_eq_true, bne_iff_ne, beq_iff_eq]
        constructor
        · intro h; exact h.2
        · rintro rfl
          exact ⟨fun e => hs (by simp [e]), rfl⟩
      · simp
    rw [List.map_cons, denotes_single_cons hsingle]
    simp only [hfits, ih fun h => hs (List.mem_cons_of_mem c h)]
    constructor
    · rintro ⟨d, r, rfl, rfl, rfl⟩
      rfl
    · rintro rfl
      exact ⟨c, s, rfl, rfl, rfl⟩

theorem inner_escaped {s : List Char} (hs : '/' ∉ s) : Inner (s.map escapedToken) := by
  intro t ht
  obtain ⟨c, hc, rfl⟩ := List.mem_map.mp ht
  rw [escapedToken]
  split
  · simp
  · refine ⟨by simp, ?_⟩
    rw [ne_eq, Token.literal.injEq]
    rintro rfl
    exact hs hc

theorem literal?_escaped {c : Pattern} {n : String} (hc : c.tokens = n.toList.map escapedToken) :
    c.literal? = some n ∨ c.literal? = none ∧ ∃ x ∈ n.toList, isMeta x = true := by
  by_cases hm : ∃ x ∈ n.toList, isMeta x = true
  · obtain ⟨x, hx, hmeta⟩ := hm
    refine Or.inr ⟨?_, x, hx, hmeta⟩
    rw [← Option.not_isSome_iff_eq_none, Option.isSome_iff_exists]
    rintro ⟨name, h⟩
    have hmem : escapedToken x ∈ name.toList.map Token.literal := by
      rw [← literal?_eq_some_iff.mp h, hc]
      exact List.mem_map_of_mem hx
    obtain ⟨y, _, hy⟩ := List.mem_map.mp hmem
    rw [escapedToken, if_pos hmeta] at hy
    simp at hy
  · refine Or.inl (literal?_eq_some_iff.mpr ?_)
    rw [hc]
    refine List.map_congr_left fun x hx => ?_
    rw [escapedToken, if_neg fun h => hm ⟨x, hx, h⟩]

/-- What a literal component asks for before the walk goes on. -/
def Passes (tree : FileTree) (p : Path) (n : String) : Prop :=
  if n = "." ∨ n = ".." then tree.isDirectory p = true else tree.present (p.join n) = true

/-- Whatever leads to something passes. -/
theorem passes_of_present {p : Path} (hp : p.isAbsolute = true) {n : String}
    (hn : '/' ∉ n.toList) (h : tree.present (p.join n) = true) : Passes tree p n := by
  rw [Passes]
  split
  · exact FileTree.isDirectory_of_present_join hp hn h
  · exact h

/-- **An escaped name leads to the name itself.** -/
theorem mem_walk_escaped {c : Pattern} {n : String} (hsep : '/' ∉ n.toList)
    (hc : c.tokens = n.toList.map escapedToken) {rest : List Pattern} {p q : Path}
    (hp : p.isAbsolute = true) :
    q ∈ walk tree (c :: rest) p ↔ Passes tree p n ∧ q ∈ walk tree rest (p.join n) := by
  rw [Passes]
  by_cases hdot : n = "." ∨ n = ".."
  · have hlit : c.literal? = some n := by
      rcases literal?_escaped hc with h | ⟨_, x, hx, hmeta⟩
      · exact h
      · rcases hdot with rfl | rfl <;> simp at hx <;> subst hx <;> simp [isMeta] at hmeta
    have hwalk : walk tree (c :: rest) p =
        if tree.isDirectory p = true then walk tree rest (p.join n) else [] := by
      cases rest <;> simp only [walk, hlit, hdot, if_true]
    rw [if_pos hdot, hwalk]
    by_cases hd : tree.isDirectory p = true <;> simp [hd]
  · rw [if_neg hdot]
    rcases literal?_escaped hc with hlit | ⟨hlit, x, hx, hmeta⟩
    · exact mem_walk_literal hlit hdot
    · -- a name with wildcards in it is looked for among the listed ones
      have hname : IsFileName n := by
        refine ⟨?_, (not_or.mp hdot).1, (not_or.mp hdot).2, hsep⟩
        rintro rfl
        simp at hx
      have hinner : Inner c.tokens := hc ▸ inner_escaped hsep
      have hplaced : Placed true c.tokens := hc ▸ (reads_escape n.toList true).placed
      have hdots : dotNames c = [] := by
        rw [dotNames]
        split
        · rw [List.filter_eq_nil_iff]
          intro m hm hfit
          rw [Pattern.fits_iff hplaced, hc, denotes_escaped hsep, String.toList_inj] at hfit
          subst hfit
          simp only [List.mem_cons, List.not_mem_nil, or_false] at hm
          exact hdot hm.symm
        · rfl
      rw [mem_walk_wild hlit (isRecursive_eq_false hinner) hdots hplaced,
        FileTree.present_join_iff hp hname, hc]
      simp only [denotes_escaped hsep, String.toList_inj]
      constructor
      · rintro ⟨_, hm, rfl, hq⟩
        exact ⟨hm, hq⟩
      · rintro ⟨hm, hq⟩
        exact ⟨n, hm, rfl, hq⟩

/-- Escaped names lead where the names lead, as far as anything is there. -/
theorem mem_walk_escaped_append : ∀ {rs : List String} {cs rest : List Pattern} {p q : Path},
    p.isAbsolute = true → (∀ n ∈ rs, '/' ∉ n.toList) →
      cs.map (·.tokens) = rs.map (·.toList.map escapedToken) →
      (q ∈ walk tree (cs ++ rest) p → q ∈ walk tree rest (p.extend rs)) ∧
        (tree.present (p.extend rs) = true → q ∈ walk tree rest (p.extend rs) →
          q ∈ walk tree (cs ++ rest) p) := by
  intro rs
  induction rs with
  | nil =>
    intro cs rest p q _ _ hcs
    rw [List.map_nil, List.map_eq_nil_iff] at hcs
    subst hcs
    exact ⟨id, fun _ h => h⟩
  | cons n rs ih =>
    intro cs rest p q hp hn hcs
    rw [List.map_cons] at hcs
    obtain ⟨c, cs, rfl, hc, hcs⟩ := List.map_eq_cons_iff.mp hcs
    have hname := hn n List.mem_cons_self
    have hrest : ∀ m ∈ rs, '/' ∉ m.toList := fun m hm => hn m (List.mem_cons_of_mem n hm)
    have hjoin := Path.isAbsolute_join hp hname
    obtain ⟨hto, hfrom⟩ := @ih cs rest (p.join n) q hjoin hrest hcs
    rw [List.cons_append, mem_walk_escaped hname hc hp, Path.extend_cons]
    refine ⟨fun h => hto h.2, fun hpres hq => ⟨?_, hfrom hpres hq⟩⟩
    exact passes_of_present hp hname (FileTree.present_of_present_extend hjoin hrest hpres)

end SiteAssist.Glob
