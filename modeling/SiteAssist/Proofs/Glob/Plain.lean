import SiteAssist.Proofs.Glob.Search

/-!
# Plain patterns and escaped texts

The components that a search goes through are the pieces of one text: an escaped one, and a pattern
after it.  This file cuts that text.

* `splitOn_escape`: **escaping leaves the pieces of a text apart**, since it puts in no separator.
* `trail_of_reads`: the components of a plain pattern (`Plain`) lead to what the last of them names.
* `mapM_parse`: pieces that can be read are parsed to their tokens.

A pattern is plain without what makes a search differ from a match: classes, which may hold a
separator, components with a leading dot, which stand for `.` and `..` too, and a `**` at the end,
which leads to directories.
-/

namespace SiteAssist.Glob

open Text (notMem_of_mem_splitOn)

/-! ## Escaped texts -/

theorem escape_append (s t : List Char) : escape (s ++ t) = escape s ++ escape t :=
  List.flatMap_append

theorem notMem_escape {s : List Char} (h : '/' ∉ s) : '/' ∉ escape s := by
  rw [escape, List.mem_flatMap]
  rintro ⟨c, hc, hm⟩
  have : c = '/' := by
    split at hm
    · simpa [eq_comm] using hm
    · simpa [eq_comm] using hm
  exact h (this ▸ hc)

theorem escape_intercalate (ps : List (List Char)) :
    escape (List.intercalate ['/'] ps) = List.intercalate ['/'] (ps.map escape) := by
  induction ps with
  | nil => rfl
  | cons p ps ih =>
    by_cases hn : ps = []
    · rw [hn, List.map_singleton, List.intercalate_singleton, List.intercalate_singleton]
    · rw [List.map_cons, List.intercalate_cons_of_ne_nil hn,
        List.intercalate_cons_of_ne_nil (by simpa using hn), escape_append, escape_append, ih]
      rfl

/-- **Escaping leaves the pieces apart.** -/
theorem splitOn_escape (s : List Char) : (escape s).splitOn '/' = (s.splitOn '/').map escape := by
  have hsep : ∀ p ∈ (s.splitOn '/').map escape, '/' ∉ p := by
    intro p hp
    obtain ⟨q, hq, rfl⟩ := List.mem_map.mp hp
    exact notMem_escape (notMem_of_mem_splitOn hq)
  calc (escape s).splitOn '/'
      = (escape (['/'].intercalate (s.splitOn '/'))).splitOn '/' := by rw [List.intercalate_splitOn]
    _ = (['/'].intercalate ((s.splitOn '/').map escape)).splitOn '/' := by rw [escape_intercalate]
    _ = (s.splitOn '/').map escape := List.splitOn_intercalate _ hsep (by simp)

/-! ## Plain patterns -/

/-- The text of a pattern without classes, dotted components, empty ones and a last `**`. -/
def Plain (s : List Char) : Prop :=
  '[' ∉ s ∧ (∀ p ∈ s.splitOn '/', p ≠ [] ∧ p.head? ≠ some '.') ∧
    (s.splitOn '/').getLast? ≠ some ['*', '*']

instance (s : List Char) : Decidable (Plain s) := inferInstanceAs (Decidable (_ ∧ _))

theorem Plain.getLast?_ne {s : List Char} (h : Plain s) : s.getLast? ≠ some '/' := by
  intro e
  obtain ⟨w, rfl⟩ := List.getLast?_eq_some_iff.mp e
  have hm : [] ∈ (w ++ ['/']).splitOn '/' := by
    rw [List.splitOn_append_cons_self]
    simp
  exact (h.2.1 [] hm).1 rfl

theorem head?_of_reads {b : Bool} {s : List Char} {ts : List Token} (h : Reads b s ts) {c : Char}
    (hc : ts.head? = some (.literal c)) : s.head? = some c := by
  cases h with
  | cls hcls _ =>
    obtain ⟨_, items, rfl | rfl⟩ := parseClass?_eq_some hcls
    · simp at hc
    · simp at hc
  | lit _ _ _ _ =>
    simpa using hc
  | _ => simp at hc

theorem ne_nil_of_reads {b : Bool} {s : List Char} {ts : List Token} (h : Reads b s ts)
    (hs : s ≠ []) : ts ≠ [] := by
  cases h <;> simp_all

/-- The components of a plain text **lead to what the last of them names**. -/
theorem trail_of_reads : ∀ {ps : List (List Char)} {cs : List Pattern},
    List.Forall₂ (Reads true) ps (cs.map (·.tokens)) → ps ≠ [] →
      (∀ p ∈ ps, '/' ∉ p ∧ '[' ∉ p) → (∀ p ∈ ps, p ≠ [] ∧ p.head? ≠ some '.') →
      ps.getLast? ≠ some ['*', '*'] → Trail cs := by
  intro ps
  induction ps with
  | nil => intro cs _ h; exact absurd rfl h
  | cons p ps ih =>
    intro cs h _ hin hplain hlast
    cases cs with
    | nil => cases h
    | cons c cs =>
      rw [List.map_cons, List.forall₂_cons] at h
      obtain ⟨hr, hrest⟩ := h
      obtain ⟨hsep, hcls⟩ := hin p List.mem_cons_self
      obtain ⟨hne, hdot⟩ := hplain p List.mem_cons_self
      have hname : Inner c.tokens → c.IsName := fun hi =>
        { named := ⟨ne_nil_of_reads hr hne, hi⟩
          placed := hr.placed
          undotted := fun e => hdot (head?_of_reads hr e) }
      by_cases hn : ps = []
      · subst hn
        have hcs : cs = [] := by simpa using hrest
        subst hcs
        rcases reads_component hr hsep hcls with ⟨_, rfl, _⟩ | hi
        · exact absurd rfl hlast
        · exact .last (hname hi)
      · have htrail : Trail cs := by
          refine ih hrest hn (fun q hq => hin q (List.mem_cons_of_mem p hq))
            (fun q hq => hplain q (List.mem_cons_of_mem p hq)) ?_
          rwa [List.getLast?_cons_of_ne_nil hn] at hlast
        rcases reads_component hr hsep hcls with ⟨_, _, hd⟩ | hi
        · exact .depth hd htrail
        · exact .name (hname hi) htrail

theorem mapM_parse {ps : List (List Char)} {tss : List (List Token)}
    (h : List.Forall₂ (Reads true) ps tss) :
    ∃ cs, (ps.mapM fun p => (Pattern.parse (String.ofList p)).toOption) = some cs ∧
      cs.map (·.tokens) = tss := by
  induction h with
  | nil => exact ⟨[], rfl, rfl⟩
  | @cons p ts ps tss hr _ ih =>
    obtain ⟨cs, hcs, htok⟩ := ih
    have hp : Pattern.parse (String.ofList p) = .ok ⟨String.ofList p, ts⟩ :=
      parse_eq_ok_iff.mpr ⟨rfl, by rwa [String.toList_ofList]⟩
    refine ⟨⟨String.ofList p, ts⟩ :: cs, ?_, by rw [List.map_cons, htok]⟩
    rw [List.mapM_cons, hp, hcs]
    rfl

end SiteAssist.Glob
