import Mathlib.Data.List.Forall2
import SiteAssist.Glob.Braces
import SiteAssist.Proofs.Text.Lines
import SiteAssist.Proofs.Text.Pieces

/-!
# Expanding brace groups

The expansion of a text replaces its first group by each of the options and expands what results.  With
groups inside groups the texts in between hold pairs of braces that the text did not, so the recursion does
not follow the text.  What it follows is the number of closing braces: an option holds none, so each step
uses one up (`FirstGroup.count`).

* `Expands s ts`: the recursion on `s`, **with no bound on its depth**, ends with `ts`.
* `expands_iff`: it ends on every text, and with `expandBraces`.
* `expandBraces_groups`: literals with groups between them expand to **the product of the groups**, in the
  order of `choices`.
-/

namespace SiteAssist.Glob

/-! ## Groups -/

/-- An opening brace with a closing one after it. -/
def HasGroup (s : List Char) : Prop := ['\x7b', '\x7d'].Sublist s

instance (s : List Char) : Decidable (HasGroup s) := inferInstanceAs (Decidable (List.Sublist _ _))

/-- The first group runs from the first opening brace to the first closing one after it. -/
structure FirstGroup (s before options after : List Char) : Prop where
  eq : s = before ++ '\x7b' :: (options ++ '\x7d' :: after)
  opening_notMem : '\x7b' ∉ before
  closing_notMem : '\x7d' ∉ options

variable {s before options after option : List Char} {n : Nat}

theorem hasGroup_append_cons {opened : List Char} (h : '\x7b' ∉ before) :
    HasGroup (before ++ '\x7b' :: opened) ↔ '\x7d' ∈ opened := by
  induction before with
  | nil =>
    rw [HasGroup, List.nil_append, List.cons_sublist_cons, List.singleton_sublist]
  | cons c before ih =>
    obtain ⟨hc, hbefore⟩ := not_or.mp (mt List.mem_cons.mpr h)
    rw [HasGroup, List.cons_append, List.cons_sublist_cons', or_iff_left fun h => hc h.1]
    exact ih hbefore

theorem hasGroup_iff : HasGroup s ↔ ∃ before options after, FirstGroup s before options after := by
  constructor
  · intro h
    obtain ⟨before, opened, rfl, hbefore⟩ := List.eq_append_cons_of_mem (h.subset List.mem_cons_self)
    have hclosing := (hasGroup_append_cons hbefore).mp h
    obtain ⟨options, after, rfl, hoptions⟩ := List.eq_append_cons_of_mem hclosing
    exact ⟨before, options, after, rfl, hbefore, hoptions⟩
  · rintro ⟨before, options, after, rfl, hbefore, -⟩
    exact (hasGroup_append_cons hbefore).mpr (List.mem_append_right options List.mem_cons_self)

namespace FirstGroup

/-- **Each step uses up one closing brace.** -/
theorem count (h : FirstGroup s before options after) (ho : option ∈ options.splitOn ',') :
    s.count '\x7d' = (before ++ option ++ after).count '\x7d' + 1 := by
  have hnone : option.count '\x7d' = 0 :=
    List.count_eq_zero.mpr fun hm => h.closing_notMem (Text.mem_of_mem_splitOn ho hm)
  rw [h.eq, List.count_append, List.count_cons_of_ne (by decide), List.count_append, List.count_cons_self,
    List.count_eq_zero.mpr h.closing_notMem, List.count_append, List.count_append, hnone]
  omega

theorem expandGroups_succ (h : FirstGroup s before options after) :
    expandGroups (n + 1) s =
      (options.splitOn ',').flatMap fun option => expandGroups n (before ++ option ++ after) := by
  have hopening : Text.cutAtFirst? (· == '\x7b') s = some (before, options ++ '\x7d' :: after) :=
    Text.cutAtFirst?_eq_some_iff.mpr
      ⟨_, h.eq, rfl, fun c hc => beq_false_of_ne fun e => h.opening_notMem (e ▸ hc)⟩
  have hclosing : Text.cutAtFirst? (· == '\x7d') (options ++ '\x7d' :: after) = some (options, after) :=
    Text.cutAtFirst?_eq_some_iff.mpr
      ⟨_, rfl, rfl, fun c hc => beq_false_of_ne fun e => h.closing_notMem (e ▸ hc)⟩
  simp only [expandGroups, hopening, hclosing]

end FirstGroup

theorem expandGroups_of_not_hasGroup (h : ¬HasGroup s) (n : Nat) : expandGroups n s = [s] := by
  cases n with
  | zero => rfl
  | succ n =>
    rw [expandGroups]
    split
    · rfl
    · rename_i before opened hopening
      obtain ⟨c, rfl, hc, hbefore⟩ := Text.cutAtFirst?_eq_some_iff.mp hopening
      obtain rfl : c = '\x7b' := eq_of_beq hc
      rw [hasGroup_append_cons fun hm => absurd (hbefore _ hm) (by decide)] at h
      have hclosing : Text.cutAtFirst? (· == '\x7d') opened = none :=
        Text.cutAtFirst?_eq_none_iff.mpr fun c hc => beq_false_of_ne fun e => h (e ▸ hc)
      rw [hclosing]

/-! ## Termination -/

/-- The recursion on a text ends with a list of texts: a text without a group stands for itself, and
otherwise each option takes the place of the first group.  A derivation is the tree of the calls. -/
inductive Expands : List Char → List (List Char) → Prop
  | plain {s : List Char} (h : ¬HasGroup s) : Expands s [s]
  | group {s before options after : List Char} {results : List Char → List (List Char)}
      (first : FirstGroup s before options after)
      (each : ∀ option ∈ options.splitOn ',', Expands (before ++ option ++ after) (results option)) :
      Expands s ((options.splitOn ',').flatMap results)

/-- The recursion ends, by the number of closing braces. -/
theorem expands_expandGroups (h : s.count '\x7d' ≤ n) : Expands s (expandGroups n s) := by
  induction n generalizing s with
  | zero =>
    have hno : ¬HasGroup s := fun hg =>
      List.count_eq_zero.mp (Nat.le_zero.mp h) (hg.subset (List.mem_cons_of_mem _ List.mem_cons_self))
    exact .plain hno
  | succ n ih =>
    by_cases hg : HasGroup s
    · obtain ⟨before, options, after, first⟩ := hasGroup_iff.mp hg
      rw [first.expandGroups_succ]
      refine .group first fun option ho => ih ?_
      have := first.count ho
      omega
    · rw [expandGroups_of_not_hasGroup hg]
      exact .plain hg

/-- Where the recursion ends, any bound that lets it end gives the same. -/
theorem Expands.expandGroups_eq {ts : List (List Char)} (h : Expands s ts) (hn : s.count '\x7d' ≤ n) :
    expandGroups n s = ts := by
  induction h generalizing n with
  | plain hno => exact expandGroups_of_not_hasGroup hno n
  | @group s before options after results first _ ih =>
    -- a group has an option, if only an empty one, so a step is taken and the bound is not zero
    obtain ⟨option, ho⟩ := List.exists_mem_of_ne_nil _ (List.splitOn_ne_nil ',' options)
    have hcount := first.count ho
    obtain ⟨m, rfl⟩ : ∃ m, n = m + 1 := Nat.exists_eq_add_of_le' (by omega)
    rw [first.expandGroups_succ]
    refine List.flatMap_congr fun option ho => ih option ho ?_
    have := first.count ho
    omega

/-- **The recursion ends on every text**, and with its expansion. -/
theorem expands_iff {ts : List (List Char)} : Expands s ts ↔ ts = expandBraces s :=
  ⟨fun h => (h.expandGroups_eq le_rfl).symm, fun h => h ▸ expands_expandGroups le_rfl⟩

theorem expandBraces_of_not_hasGroup (h : ¬HasGroup s) : expandBraces s = [s] :=
  (expands_iff.mp (.plain h)).symm

theorem expandBraces_of_firstGroup (h : FirstGroup s before options after) :
    expandBraces s = (options.splitOn ',').flatMap fun option => expandBraces (before ++ option ++ after) :=
  (expands_iff.mp (.group h fun _ _ => expands_iff.mpr rfl)).symm

/-- No group is left. -/
theorem not_hasGroup_of_mem {t : List Char} (h : t ∈ expandBraces s) : ¬HasGroup t := by
  have hleft : ∀ {s ts}, Expands s ts → ∀ t ∈ ts, ¬HasGroup t := by
    intro s ts hs
    induction hs with
    | plain hno =>
      intro t ht
      rwa [List.mem_singleton.mp ht]
    | group first _ ih =>
      intro t ht
      obtain ⟨option, ho, ht⟩ := List.mem_flatMap.mp ht
      exact ih option ho t ht
  exact hleft (expands_iff.mpr rfl) t h

/-! ## Choices -/

/-- The choices of one out of each so many, the first varying slowest. -/
def choices : List Nat → List (List Nat)
  | [] => [[]]
  | n :: ns => (List.range n).flatMap fun i => (choices ns).map (i :: ·)

theorem mem_choices_iff {v ns : List Nat} : v ∈ choices ns ↔ List.Forall₂ (· < ·) v ns := by
  induction ns generalizing v with
  | nil => simp [choices]
  | cons n ns ih =>
    rw [choices, List.forall₂_cons_right_iff]
    simp only [List.mem_flatMap, List.mem_range, List.mem_map, ih]
    constructor
    · rintro ⟨i, hi, v, hv, rfl⟩
      exact ⟨i, v, hi, hv, rfl⟩
    · rintro ⟨i, v, hi, hv, rfl⟩
      exact ⟨i, hi, v, hv, rfl⟩

/-- Choices are listed in their lexicographic order, each once. -/
theorem pairwise_choices (ns : List Nat) : (choices ns).Pairwise (· < ·) := by
  induction ns with
  | nil => exact List.pairwise_singleton _ _
  | cons n ns ih =>
    rw [choices, List.pairwise_flatMap]
    constructor
    · intro i _
      exact List.pairwise_map.mpr (ih.imp fun h => List.cons_lt_cons_iff.mpr (Or.inr ⟨rfl, h⟩))
    · refine List.pairwise_lt_range.imp fun hij => ?_
      rintro _ hv _ hw
      obtain ⟨v, _, rfl⟩ := List.mem_map.mp hv
      obtain ⟨w, _, rfl⟩ := List.mem_map.mp hw
      exact List.cons_lt_cons_iff.mpr (Or.inl hij)

/-! ## Products -/

/-- A text without braces. -/
def Unbraced (s : List Char) : Prop := '\x7b' ∉ s ∧ '\x7d' ∉ s

instance (s : List Char) : Decidable (Unbraced s) := inferInstanceAs (Decidable (_ ∧ _))

theorem Unbraced.append {t : List Char} (h : Unbraced s) (h' : Unbraced t) : Unbraced (s ++ t) :=
  ⟨fun hm => (List.mem_append.mp hm).elim h.1 h'.1, fun hm => (List.mem_append.mp hm).elim h.2 h'.2⟩

/-- A group of options, and the literal after it. -/
structure Group where
  options : List (List Char)
  literal : List Char
  options_ne_nil : options ≠ []
  options_plain : ∀ option ∈ options, Unbraced option ∧ ',' ∉ option
  literal_unbraced : Unbraced literal

namespace Group

/-- How many options there are. -/
def size (g : Group) : Nat := g.options.length

/-- The group as it is written, with its literal. -/
def text (g : Group) : List Char := '\x7b' :: (List.intercalate [','] g.options ++ '\x7d' :: g.literal)

/-- One of the options in the place of the group. -/
def chosen (g : Group) (i : Nat) : List Char := g.options.getD i [] ++ g.literal

theorem closing_notMem (g : Group) : '\x7d' ∉ List.intercalate [','] g.options := by
  intro h
  rcases Text.mem_intercalate_cases h with h | ⟨option, ho, h⟩
  · exact absurd h (by decide)
  · exact (g.options_plain option ho).1.2 h

theorem splitOn_options (g : Group) : (List.intercalate [','] g.options).splitOn ',' = g.options :=
  List.splitOn_intercalate _ (fun option ho => (g.options_plain option ho).2) g.options_ne_nil

theorem map_range_size (g : Group) : (List.range g.size).map (g.options.getD · []) = g.options := by
  refine List.ext_getElem (by simp [size]) fun i hi hi' => ?_
  simp [hi']

end Group

/-- **A literal and groups after it** expand to the product of the groups. -/
theorem expandBraces_groups {head : List Char} (h : Unbraced head) (gs : List Group) :
    expandBraces (head ++ gs.flatMap Group.text) =
      (choices (gs.map Group.size)).map fun v => head ++ (List.zipWith Group.chosen gs v).flatten := by
  induction gs generalizing head with
  | nil =>
    have hno : ¬HasGroup head := fun hg => h.1 (hg.subset List.mem_cons_self)
    rw [List.flatMap_nil, List.append_nil, expandBraces_of_not_hasGroup hno]
    simp [choices]
  | cons g gs ih =>
    have first : FirstGroup (head ++ (g :: gs).flatMap Group.text) head (List.intercalate [','] g.options)
        (g.literal ++ gs.flatMap Group.text) :=
      ⟨by simp [Group.text], h.1, g.closing_notMem⟩
    -- an option joins the literals on both sides to the head of what is left
    have hoption : ∀ option ∈ g.options,
        expandBraces (head ++ option ++ (g.literal ++ gs.flatMap Group.text)) =
          (choices (gs.map Group.size)).map fun v =>
            head ++ (option ++ g.literal ++ (List.zipWith Group.chosen gs v).flatten) := by
      intro option ho
      have hhead : Unbraced (head ++ option ++ g.literal) :=
        (h.append (g.options_plain option ho).1).append g.literal_unbraced
      rw [← List.append_assoc, ih hhead]
      simp only [List.append_assoc]
    calc expandBraces (head ++ (g :: gs).flatMap Group.text)
        = g.options.flatMap fun option => (choices (gs.map Group.size)).map fun v =>
            head ++ (option ++ g.literal ++ (List.zipWith Group.chosen gs v).flatten) := by
          rw [expandBraces_of_firstGroup first, g.splitOn_options]
          exact List.flatMap_congr hoption
      _ = (List.range g.size).flatMap fun i => (choices (gs.map Group.size)).map fun v =>
            head ++ (g.chosen i ++ (List.zipWith Group.chosen gs v).flatten) := by
          conv_lhs => rw [← g.map_range_size, List.flatMap_map]
          rfl
      _ = (choices ((g :: gs).map Group.size)).map fun v =>
            head ++ (List.zipWith Group.chosen (g :: gs) v).flatten := by
          simp only [List.map_cons, choices, List.map_flatMap, List.map_map]
          rfl

/-- A pattern of literals with groups between them. -/
structure Grouped where
  head : List Char
  groups : List Group
  head_unbraced : Unbraced head

namespace Grouped

/-- The pattern as it is written. -/
def text (p : Grouped) : List Char := p.head ++ p.groups.flatMap Group.text

/-- How many options each group has. -/
def sizes (p : Grouped) : List Nat := p.groups.map Group.size

/-- The text of a choice of one option out of each group. -/
def chosen (p : Grouped) (v : List Nat) : List Char :=
  p.head ++ (List.zipWith Group.chosen p.groups v).flatten

end Grouped

/-- **Groups expand to their ordered product, and every expansion ends without a group.**

A pattern of literals with groups between them stands for the texts with one option out of each group: a
text for every choice, in the lexicographic order of the choices, so that the first group varies slowest and
a repeated option gives repeated texts.  On any text at all, however its braces are nested, the recursion
that replaces the first group by its options ends, with the expansion and nothing else, and no text of the
expansion has an opening brace with a closing one after it. -/
theorem braces_expand :
    (∀ p : Grouped, expandBraces p.text = (choices p.sizes).map p.chosen ∧
      (choices p.sizes).Pairwise (· < ·) ∧ ∀ v, v ∈ choices p.sizes ↔ List.Forall₂ (· < ·) v p.sizes) ∧
    ∀ s, (∀ ts, Expands s ts ↔ ts = expandBraces s) ∧ ∀ t ∈ expandBraces s, ¬HasGroup t :=
  ⟨fun p => ⟨expandBraces_groups p.head_unbraced p.groups, pairwise_choices p.sizes, fun _ => mem_choices_iff⟩,
    fun _ => ⟨fun _ => expands_iff, fun _ => not_hasGroup_of_mem⟩⟩

/-- A pattern with an option given twice and an empty one. -/
def crowded : Grouped :=
  { head := "a/".toList
    groups :=
      [{ options := ["x".toList, "y".toList, "x".toList], literal := "-".toList
         options_ne_nil := by decide, options_plain := by decide, literal_unbraced := by decide },
       { options := [[], "z".toList], literal := ".c,d".toList
         options_ne_nil := by decide, options_plain := by decide, literal_unbraced := by decide }]
    head_unbraced := by decide }

/-- A text whose first group is cut short by an inner brace. -/
def nested : List Char := "\x7ba\x7bb,c\x7dd\x7de,f\x7d".toList

theorem braces_expand_nested :
    crowded.text = "a/\x7bx,y,x\x7d-\x7b,z\x7d.c,d".toList ∧
      expandBraces crowded.text = (choices crowded.sizes).map crowded.chosen ∧
      (choices crowded.sizes).map crowded.chosen =
        ["a/x-.c,d".toList, "a/x-z.c,d".toList, "a/y-.c,d".toList, "a/y-z.c,d".toList, "a/x-.c,d".toList,
          "a/x-z.c,d".toList] ∧
      [1, 1] ∈ choices crowded.sizes ∧ Expands nested ["abde,f\x7d".toList, "cd\x7de,f\x7d".toList] ∧
      "cd\x7de,f\x7d".toList ∈ expandBraces nested ∧ ¬HasGroup "cd\x7de,f\x7d".toList := by
  have hmem : "cd\x7de,f\x7d".toList ∈ expandBraces nested := by decide
  have hnested : ["abde,f\x7d".toList, "cd\x7de,f\x7d".toList] = expandBraces nested := by decide
  obtain ⟨hproduct, hany⟩ := braces_expand
  obtain ⟨hcrowded, _, hchoices⟩ := hproduct crowded
  exact ⟨by decide, hcrowded, by decide, (hchoices [1, 1]).mpr (.cons (by decide) (.cons (by decide) .nil)),
    ((hany nested).1 _).mpr hnested, hmem, (hany nested).2 _ hmem⟩

end SiteAssist.Glob
