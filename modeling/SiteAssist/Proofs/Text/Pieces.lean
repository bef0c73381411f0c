import SiteAssist.Text.Basic

/-!
# Splitting and joining

Paths, patterns and names are cut at a separator by `List.splitOn` and put together by `List.intercalate`,
which are inverse to each other (`List.intercalate_splitOn`, `List.splitOn_intercalate`).  Here is what the
readers of pieces need besides: how the pieces of a text come from those of its tail (`splitOn_sep_cons`,
`splitOn_cons_of_ne`), how many there are, and that neither function brings in a character of its own but the
separator (`mem_of_mem_splitOn`, `mem_intercalate_cases`).
-/

namespace SiteAssist.Text

variable {sep : Char}

/-! ## Splitting -/

@[simp] theorem splitOn_sep_cons (s : List Char) : (sep :: s).splitOn sep = [] :: s.splitOn sep :=
  List.splitOn_append_cons_self_of_not_mem List.not_mem_nil s

theorem splitOn_cons_of_ne {c : Char} (h : c ≠ sep) {s p : List Char} {ps : List (List Char)}
    (hs : s.splitOn sep = p :: ps) : (c :: s).splitOn sep = (c :: p) :: ps := by
  rw [List.splitOn_cons_eq_if_modifyHead, if_neg (by simpa using h), hs]
  rfl

theorem notMem_of_mem_splitOn : ∀ {s p : List Char}, p ∈ s.splitOn sep → sep ∉ p := by
  intro s
  induction s with
  | nil => intro p h; simp_all
  | cons c cs ih =>
    intro p h
    by_cases hc : c = sep
    · subst hc
      rw [splitOn_sep_cons, List.mem_cons] at h
      rcases h with rfl | h
      · simp
      · exact ih h
    · obtain ⟨q, qs, hq⟩ := List.exists_cons_of_ne_nil (List.splitOn_ne_nil sep cs)
      rw [splitOn_cons_of_ne hc hq, List.mem_cons] at h
      rcases h with rfl | h
      · have := ih (p := q) (by rw [hq]; exact List.mem_cons_self)
        simp only [List.mem_cons, not_or]
        exact ⟨fun e => hc e.symm, this⟩
      · exact ih (by rw [hq]; exact List.mem_cons_of_mem q h)

theorem length_splitOn (s : List Char) : (s.splitOn sep).length = s.count sep + 1 := by
  induction s with
  | nil => rfl
  | cons c s ih =>
    by_cases hc : c = sep
    · rw [hc, splitOn_sep_cons, List.length_cons, ih, List.count_cons_self]
    · obtain ⟨p, ps, hp⟩ := List.exists_cons_of_ne_nil (List.splitOn_ne_nil sep s)
      rw [splitOn_cons_of_ne hc hp, List.count_cons_of_ne hc, ← ih, hp]
      rfl

/-! ## The characters of the pieces -/

theorem mem_intercalate_cases {c : Char} {s : List Char} {ps : List (List Char)}
    (h : c ∈ List.intercalate s ps) : c ∈ s ∨ ∃ p ∈ ps, c ∈ p := by
  induction ps with
  | nil => simp at h
  | cons p ps ih =>
    by_cases hn : ps = []
    · subst hn
      exact Or.inr ⟨p, List.mem_cons_self, by rwa [List.intercalate_singleton] at h⟩
    · rw [List.intercalate_cons_of_ne_nil hn, List.mem_append, List.mem_append] at h
      rcases h with (h | h) | h
      · exact Or.inr ⟨p, List.mem_cons_self, h⟩
      · exact Or.inl h
      · exact (ih h).imp_right fun ⟨q, hq, hc⟩ => ⟨q, List.mem_cons_of_mem p hq, hc⟩

theorem mem_intercalate_of_mem {c : Char} {s p : List Char} {ps : List (List Char)} (hp : p ∈ ps)
    (hc : c ∈ p) : c ∈ List.intercalate s ps := by
  induction ps with
  | nil => simp at hp
  | cons q ps ih =>
    by_cases hn : ps = []
    · subst hn
      rwa [List.intercalate_singleton, ← List.mem_singleton.mp hp]
    · rw [List.intercalate_cons_of_ne_nil hn, List.mem_append, List.mem_append]
      rcases List.mem_cons.mp hp with rfl | hp
      · exact Or.inl (Or.inl hc)
      · exact Or.inr (ih hp)

theorem mem_of_mem_splitOn {c : Char} {s p : List Char} (hp : p ∈ s.splitOn sep) (hc : c ∈ p) :
    c ∈ s := by
  rw [← @List.intercalate_splitOn _ s _ _ sep]
  exact mem_intercalate_of_mem hp hc

end SiteAssist.Text
