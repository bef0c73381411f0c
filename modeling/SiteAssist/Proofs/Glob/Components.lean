import Mathlib.Data.List.Forall2
import SiteAssist.Proofs.Glob.Grammar
import SiteAssist.Proofs.Text.Pieces

/-!
# A pattern and its components

A pattern is matched in one go against a whole path, and searched for one component at a time.  This
file says what the two have in common.

* `exists_components`: the tokens of a text are those of its components with a separator between
  them (`joined`), a `**` taking the separator after it with it.
* `Leads`: components lead along names, a `**` along any number of them.  `denotes_joined_iff`:
  **a pattern stands for a path exactly when its components lead along the path's names**.
* `leads_depth_depth`: one `**` leads as far as several in a row.

All of this asks that the last component names something (`Route`).  A pattern that ends in `**`
stands for every path below, but its components lead to directories.
-/

namespace SiteAssist.Glob

open Text (notMem_of_mem_splitOn)

/-! ## Components joined -/

/-- The tokens of components with a separator between each two. -/
def joined : List (List Token) → List Token
  | [] => []
  | [ts] => ts
  | ts :: us :: rest =>
    if ts = [.anyDepth] then .anyDepth :: joined (us :: rest)
    else ts ++ .literal '/' :: joined (us :: rest)

theorem joined_depth_cons {tss : List (List Token)} (h : tss ≠ []) :
    joined ([.anyDepth] :: tss) = .anyDepth :: joined tss := by
  obtain ⟨us, rest, rfl⟩ := List.exists_cons_of_ne_nil h
  rw [joined, if_pos rfl]

theorem joined_cons {ts : List Token} {tss : List (List Token)} (hne : ts ≠ [.anyDepth])
    (h : tss ≠ []) : joined (ts :: tss) = ts ++ .literal '/' :: joined tss := by
  obtain ⟨us, rest, rfl⟩ := List.exists_cons_of_ne_nil h
  rw [joined, if_neg hne]

/-- **The tokens of a text are those of its components.** -/
theorem exists_components : ∀ {ps : List (List Char)}, ps ≠ [] → (∀ p ∈ ps, '/' ∉ p ∧ '[' ∉ p) →
    ∀ {ts : List Token}, Reads true (List.intercalate ['/'] ps) ts →
      ∃ tss, List.Forall₂ (Reads true) ps tss ∧ ts = joined tss := by
  intro ps
  induction ps with
  | nil => intro h; exact absurd rfl h
  | cons p ps ih =>
    intro _ hp ts h
    by_cases hn : ps = []
    · subst hn
      rw [List.intercalate_singleton] at h
      exact ⟨[ts], .cons h .nil, rfl⟩
    · rw [List.intercalate_cons_of_ne_nil hn, List.append_assoc, List.singleton_append] at h
      obtain ⟨hsep, hcls⟩ := hp p List.mem_cons_self
      have hps : ∀ q ∈ ps, '/' ∉ q ∧ '[' ∉ q := fun q hq => hp q (List.mem_cons_of_mem p hq)
      rcases reads_append_cons hsep hcls h with ⟨_, rfl, vs, hv, rfl⟩ | ⟨us, vs, hu, hi, hv, rfl⟩
      · obtain ⟨tss, hall, rfl⟩ := ih hn hps hv
        have htss : tss ≠ [] := by rintro rfl; cases hall; exact hn rfl
        exact ⟨[.anyDepth] :: tss, .cons .deepEnd hall, (joined_depth_cons htss).symm⟩
      · obtain ⟨tss, hall, rfl⟩ := ih hn hps hv
        have htss : tss ≠ [] := by rintro rfl; cases hall; exact hn rfl
        have hne : us ≠ [.anyDepth] := by
          rintro rfl
          exact (hi .anyDepth List.mem_cons_self).1 rfl
        exact ⟨us :: tss, .cons hu hall, (joined_cons hne htss).symm⟩

/-! ## Routes -/

/-- Tokens that name something within a component. -/
structure Named (ts : List Token) : Prop where
  ne_nil : ts ≠ []
  inner : Inner ts

theorem Named.ne_depth {ts : List Token} (h : Named ts) : ts ≠ [.anyDepth] := by
  rintro rfl
  exact (h.inner .anyDepth List.mem_cons_self).1 rfl

/-- Components of which the last names something. -/
inductive Route : List (List Token) → Prop
  | last {ts : List Token} : Named ts → Route [ts]
  | name {ts : List Token} {tss : List (List Token)} : Named ts → Route tss → Route (ts :: tss)
  | depth {tss : List (List Token)} : Route tss → Route ([.anyDepth] :: tss)

theorem Route.ne_nil {tss : List (List Token)} (h : Route tss) : tss ≠ [] := by
  cases h <;> simp

theorem Route.of_depth {tss : List (List Token)} (h : Route ([.anyDepth] :: tss)) : Route tss := by
  cases h with
  | last h => exact absurd rfl h.ne_depth
  | name h _ => exact absurd rfl h.ne_depth
  | depth h => exact h

/-- What components lead along: a component along a name that it stands for, a `**` along any
number of names. -/
inductive Leads : List (List Token) → List (List Char) → Prop
  | done : Leads [] []
  | name {ts : List Token} {tss : List (List Token)} {n : List Char} {ns : List (List Char)} :
      ts ≠ [.anyDepth] → Denotes ts n → Leads tss ns → Leads (ts :: tss) (n :: ns)
  | here {tss : List (List Token)} {ns : List (List Char)} :
      Leads tss ns → Leads ([.anyDepth] :: tss) ns
  | deeper {tss : List (List Token)} {n : List Char} {ns : List (List Char)} :
      Leads ([.anyDepth] :: tss) ns → Leads ([.anyDepth] :: tss) (n :: ns)

theorem leads_append_depth {tss : List (List Token)} {ns : List (List Char)}
    (h : Leads tss ns) : ∀ ds : List (List Char), Leads ([.anyDepth] :: tss) (ds ++ ns) := by
  intro ds
  induction ds with
  | nil => exact .here h
  | cons d ds ih => exact .deeper ih

/-- A `**` leads along some names, and what follows it along the others. -/
theorem leads_depth_cons {tss : List (List Token)} {ns : List (List Char)} :
    Leads ([.anyDepth] :: tss) ns ↔ ∃ ds rest, ns = ds ++ rest ∧ Leads tss rest := by
  constructor
  · intro h
    generalize hw : [Token.anyDepth] :: tss = w at h
    induction h with
    | done => simp at hw
    | name hne _ _ _ => exact absurd (List.cons.inj hw).1.symm hne
    | here h _ =>
      rw [← (List.cons.inj hw).2] at h
      exact ⟨[], _, rfl, h⟩
    | @deeper tss' n ns _ ih =>
      obtain ⟨ds, rest, rfl, h⟩ := ih hw
      exact ⟨n :: ds, rest, rfl, h⟩
  · rintro ⟨ds, rest, rfl, h⟩
    exact leads_append_depth h ds

/-- One `**` leads **as far as several in a row**. -/
theorem leads_depth_depth {tss : List (List Token)} {ns : List (List Char)} :
    Leads ([.anyDepth] :: [.anyDepth] :: tss) ns ↔ Leads ([.anyDepth] :: tss) ns := by
  constructor
  · intro h
    obtain ⟨ds, rest, rfl, hr⟩ := leads_depth_cons.mp h
    obtain ⟨es, last, rfl, hl⟩ := leads_depth_cons.mp hr
    rw [← List.append_assoc]
    exact leads_append_depth hl _
  · exact .here

theorem leads_name_cons {ts : List Token} (hne : ts ≠ [.anyDepth]) {tss : List (List Token)}
    {ns : List (List Char)} :
    Leads (ts :: tss) ns ↔ ∃ n rest, ns = n :: rest ∧ Denotes ts n ∧ Leads tss rest := by
  constructor
  · intro h
    cases h with
    | name _ hn hr => exact ⟨_, _, rfl, hn, hr⟩
    | here _ => exact absurd rfl hne
    | deeper _ => exact absurd rfl hne
  · rintro ⟨n, rest, rfl, hn, hr⟩
    exact .name hne hn hr

theorem Leads.ne_nil {tss : List (List Token)} {ns : List (List Char)} (h : Leads tss ns)
    (hr : Route tss) : ns ≠ [] := by
  induction hr generalizing ns with
  | last hn =>
    obtain ⟨n, rest, rfl, _⟩ := (leads_name_cons hn.ne_depth).mp h
    simp
  | name hn _ _ =>
    obtain ⟨n, rest, rfl, _⟩ := (leads_name_cons hn.ne_depth).mp h
    simp
  | depth _ ih =>
    obtain ⟨ds, rest, rfl, hrest⟩ := leads_depth_cons.mp h
    simp [ih hrest]

/-! ## Matching and leading -/

/-- Tokens that stand for nothing at all stand for any one name: they are runs. -/
theorem denotes_of_denotes_nil {ts : List Token} (hn : Named ts) (h : Denotes ts [])
    {n : List Char} (hsep : '/' ∉ n) : Denotes ts n := by
  obtain ⟨t, ts, rfl⟩ := List.exists_cons_of_ne_nil hn.ne_nil
  have ht := hn.inner t List.mem_cons_self
  by_cases hr : t = .anyRun
  · subst hr
    obtain ⟨u, v, huv, _, hv⟩ := denotes_anyRun_cons.mp h
    rw [(List.append_eq_nil_iff.mp huv.symm).2] at hv
    have := Denotes.run hsep hv
    rwa [List.append_nil] at this
  · have hs : t.isSingle = true := by cases t <;> simp_all [Token.isSingle]
    obtain ⟨c, r, he, _⟩ := (denotes_single_cons hs).mp h
    simp at he

theorem leads_of_denotes_nil {tss : List (List Token)} (hr : Route tss)
    (h : Denotes (joined tss) []) {n : List Char} (hsep : '/' ∉ n) : Leads tss [n] := by
  induction hr with
  | last hn => exact .name hn.ne_depth (denotes_of_denotes_nil hn h hsep) .done
  | name hn hr _ =>
    rw [joined_cons hn.ne_depth hr.ne_nil] at h
    obtain ⟨u, v, huv, _, hv⟩ := (denotes_append fun t ht => (hn.inner t ht).1).mp h
    obtain ⟨c, r, rfl, _⟩ := (denotes_single_cons rfl).mp hv
    simp at huv
  | depth hr ih =>
    rw [joined_depth_cons hr.ne_nil] at h
    obtain ⟨u, v, huv, _, hv⟩ := denotes_anyDepth_cons.mp h
    rw [(List.append_eq_nil_iff.mp huv.symm).2] at hv
    exact .here (ih hv)

theorem leads_of_denotes_joined {tss : List (List Token)} (hr : Route tss) :
    ∀ {ns : List (List Char)}, ns ≠ [] → (∀ n ∈ ns, '/' ∉ n) →
      Denotes (joined tss) (List.intercalate ['/'] ns) → Leads tss ns := by
  induction hr with
  | @last ts hn =>
    intro ns hne hsep h
    have hno : '/' ∉ List.intercalate ['/'] ns := notMem_of_denotes hn.inner h
    have : ns = [List.intercalate ['/'] ns] := by
      rw [← List.splitOn_eq_singleton hno, List.splitOn_intercalate _ hsep hne]
    rw [this]
    exact .name hn.ne_depth h .done
  | @name ts tss hn hr ih =>
    intro ns hne hsep h
    rw [joined_cons hn.ne_depth hr.ne_nil] at h
    obtain ⟨u, v, huv, hu, hv⟩ := (denotes_append fun t ht => (hn.inner t ht).1).mp h
    obtain ⟨c, w, rfl, hc, hw⟩ := (denotes_single_cons rfl).mp hv
    have hc : c = '/' := by simpa using hc
    subst hc
    have hns : ns = u :: w.splitOn '/' := by
      rw [← List.splitOn_intercalate _ hsep hne, huv, List.splitOn_append_cons_self,
        List.splitOn_eq_singleton (notMem_of_denotes hn.inner hu)]
      rfl
    subst hns
    refine .name hn.ne_depth hu (ih (List.splitOn_ne_nil '/' w) ?_ ?_)
    · intro n hm; exact hsep n (List.mem_cons_of_mem u hm)
    · rwa [List.intercalate_splitOn]
  | @depth tss hr ih =>
    intro ns hne hsep h
    rw [joined_depth_cons hr.ne_nil] at h
    obtain ⟨u, v, huv, hu, hv⟩ := denotes_anyDepth_cons.mp h
    rcases hu with rfl | hu | rfl
    · rw [List.nil_append] at huv
      exact .here (ih hne hsep (huv ▸ hv))
    · obtain ⟨w, rfl⟩ := List.getLast?_eq_some_iff.mp hu
      have hns : ns = w.splitOn '/' ++ v.splitOn '/' := by
        rw [← List.splitOn_intercalate _ hsep hne, huv, List.append_assoc, List.singleton_append,
          List.splitOn_append_cons_self]
      subst hns
      refine leads_append_depth (ih (List.splitOn_ne_nil '/' v) ?_ ?_) _
      · intro n hm; exact hsep n (List.mem_append_right _ hm)
      · rwa [List.intercalate_splitOn]
    · -- the `**` took all there was: what follows it stands for the last name as well
      rw [← List.dropLast_concat_getLast hne]
      have hlast := hsep (ns.getLast hne) (List.getLast_mem hne)
      exact leads_append_depth (leads_of_denotes_nil hr hv hlast) _

theorem denotes_joined_of_leads {tss : List (List Token)} {ns : List (List Char)}
    (h : Leads tss ns) (hr : Route tss) : Denotes (joined tss) (List.intercalate ['/'] ns) := by
  induction h with
  | done => exact absurd rfl hr.ne_nil
  | @name ts tss n ns hne hn hl ih =>
    by_cases he : tss = []
    · subst he
      cases hl
      rwa [List.intercalate_singleton]
    · have hr' : Route tss := by
        cases hr with
        | last _ => exact absurd rfl he
        | name _ hr' => exact hr'
        | depth _ => exact absurd rfl hne
      have hnamed : Named ts := by
        cases hr with
        | last h => exact h
        | name h _ => exact h
        | depth _ => exact absurd rfl hne
      rw [joined_cons hne he, List.intercalate_cons_of_ne_nil (hl.ne_nil hr'), List.append_assoc,
        List.singleton_append]
      refine (denotes_append fun t ht => (hnamed.inner t ht).1).mpr ⟨n, _, rfl, hn, ?_⟩
      exact .char (by simp) (ih hr')
  | @here tss ns hl ih =>
    have hr' := hr.of_depth
    rw [joined_depth_cons hr'.ne_nil]
    have := Denotes.depth (u := []) (Or.inl rfl) (ih hr')
    rwa [List.nil_append] at this
  | @deeper tss n ns hl ih =>
    have hr' := hr.of_depth
    have hd := ih hr
    rw [joined_depth_cons hr'.ne_nil] at hd ⊢
    obtain ⟨u, v, huv, hu, hv⟩ := denotes_anyDepth_cons.mp hd
    rw [List.intercalate_cons_of_ne_nil (hl.ne_nil hr), huv]
    refine denotes_anyDepth_cons.mpr ⟨n ++ ['/'] ++ u, v, by simp, ?_, hv⟩
    rcases hu with rfl | hu | hu
    · exact Or.inr (Or.inl (by simp))
    · obtain ⟨w, rfl⟩ := List.getLast?_eq_some_iff.mp hu
      refine Or.inr (Or.inl ?_)
      rw [← List.append_assoc, List.getLast?_concat]
    · exact Or.inr (Or.inr hu)

/-- **A pattern stands for a path exactly when its components lead along its names.** -/
theorem denotes_joined_iff {tss : List (List Token)} (hr : Route tss) {ns : List (List Char)}
    (hne : ns ≠ []) (hsep : ∀ n ∈ ns, '/' ∉ n) :
    Denotes (joined tss) (List.intercalate ['/'] ns) ↔ Leads tss ns :=
  ⟨leads_of_denotes_joined hr hne hsep, fun h => denotes_joined_of_leads h hr⟩

end SiteAssist.Glob
