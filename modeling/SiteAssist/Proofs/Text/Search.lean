import Mathlib.Data.List.Infix
import SiteAssist.Proofs.Text.Lines

/-!
# The first occurrence

`cutFirst? needle s` cuts a text where the needle **occurs first**: it fails on the texts without the needle
(`cutFirst?_eq_none_iff`), and what it gives otherwise is a text without the needle, the needle and the rest
(`cutFirst?_eq_some_iff`).  For the latter the needle may not overlap itself: its first character stands in it
only once.

An occurrence in two texts one after the other is in one of them, unless it lies across the border.  None
does if the needle lacks the character on one side of it (`infix_append_cons`), or if no end of the
needle begins the second text (`infix_append_of_tails`).
-/

namespace SiteAssist.Text

variable {needle s t a b : List Char} {c : Char}

theorem isSome_stripPrefix?_iff : ∀ {p s : List Char}, (stripPrefix? p s).isSome = true ↔ p <+: s := by
  intro p
  induction p with
  | nil => intro s; simp [stripPrefix?]
  | cons c p ih =>
    intro s
    cases s with
    | nil => simp [stripPrefix?]
    | cons d s =>
      rw [stripPrefix?, List.cons_prefix_cons]
      split
      · rename_i h
        rw [ih]
        simp [h]
      · rename_i h
        simp [h]

theorem stripPrefix?_eq_some_iff : stripPrefix? needle s = some t ↔ s = needle ++ t := by
  constructor
  · intro h
    obtain ⟨u, rfl⟩ := isSome_stripPrefix?_iff.mp (Option.isSome_of_eq_some h)
    rw [stripPrefix?_append, Option.some.injEq] at h
    rw [h]
  · rintro rfl
    exact stripPrefix?_append needle t

theorem stripPrefix?_eq_none_iff : stripPrefix? needle s = none ↔ ¬needle <+: s := by
  rw [← isSome_stripPrefix?_iff, Option.not_isSome_iff_eq_none]

theorem stripSuffix?_eq_some_iff : stripSuffix? needle s = some t ↔ s = t ++ needle := by
  constructor
  · intro h
    obtain ⟨u, hu, rfl⟩ := Option.map_eq_some_iff.mp h
    rw [stripPrefix?_eq_some_iff] at hu
    rw [← List.reverse_reverse s, hu, List.reverse_append, List.reverse_reverse]
  · rintro rfl
    exact stripSuffix?_append t needle

/-- What stands between a prefix and a suffix. -/
theorem strip_eq_some_iff :
    (stripPrefix? a s).bind (stripSuffix? b) = some t ↔ s = a ++ (t ++ b) := by
  rw [Option.bind_eq_some_iff]
  simp only [stripPrefix?_eq_some_iff, stripSuffix?_eq_some_iff]
  exact ⟨fun ⟨_, hs, ht⟩ => ht ▸ hs, fun h => ⟨_, h, rfl⟩⟩

/-! ## Where a needle occurs -/

theorem cutFirst?_eq_none_iff : cutFirst? needle s = none ↔ ¬needle <:+: s := by
  induction s with
  | nil =>
    rw [cutFirst?, List.infix_nil]
    split <;> simp_all
  | cons c s ih =>
    rw [cutFirst?, List.infix_cons_iff, not_or, ← stripPrefix?_eq_none_iff, ← ih]
    cases stripPrefix? needle (c :: s) <;> simp

theorem prefix_append_cases (h : needle <+: a ++ b) :
    needle <+: a ∨ ∃ tail, needle = a ++ tail ∧ tail <+: b := by
  rcases List.prefix_or_prefix_of_prefix h (List.prefix_append a b) with h' | ⟨tail, rfl⟩
  · exact .inl h'
  · exact .inr ⟨tail, rfl, (List.prefix_append_right_inj a).mp h⟩

/-- An occurrence before another one ends before it, if the first character of the needle stands in it
only once. -/
theorem prefix_of_prefix_append (hc : c ∉ needle) (hne : a ≠ [])
    (h : c :: needle <+: a ++ (c :: needle ++ b)) : c :: needle <+: a := by
  rcases prefix_append_cases h with h | ⟨tail, htail, hb⟩
  · exact h
  · obtain ⟨d, a, rfl⟩ := List.exists_cons_of_ne_nil hne
    cases tail with
    | nil =>
      rw [htail, List.append_nil]
    | cons e tail =>
      rw [List.cons_append, List.cons_prefix_cons] at hb
      rw [List.cons_append, List.cons.injEq, hb.1] at htail
      rw [htail.2] at hc
      exact absurd (List.mem_append_right a List.mem_cons_self) hc

/-- **What is cut is the first occurrence.** -/
theorem cutFirst?_eq_some_iff (hc : c ∉ needle) :
    cutFirst? (c :: needle) s = some (a, b) ↔ s = a ++ (c :: needle ++ b) ∧ ¬c :: needle <:+: a := by
  induction s generalizing a with
  | nil => simp [cutFirst?]
  | cons d s ih =>
    rw [cutFirst?]
    cases hstrip : stripPrefix? (c :: needle) (d :: s) with
    | some after =>
      rw [stripPrefix?_eq_some_iff] at hstrip
      dsimp only
      rw [hstrip, Option.some.injEq, Prod.mk.injEq]
      constructor
      · rintro ⟨rfl, rfl⟩
        exact ⟨rfl, by simp⟩
      · rintro ⟨h, hno⟩
        cases a with
        | nil => exact ⟨rfl, List.append_cancel_left h⟩
        | cons e a =>
          have hpre := prefix_of_prefix_append hc (List.cons_ne_nil e a) (h ▸ List.prefix_append _ after)
          exact absurd hpre.isInfix hno
    | none =>
      rw [stripPrefix?_eq_none_iff] at hstrip
      dsimp only
      constructor
      · intro h
        obtain ⟨⟨a', b'⟩, hcut, heq⟩ := Option.map_eq_some_iff.mp h
        obtain ⟨rfl, rfl⟩ := Prod.mk.inj heq
        obtain ⟨rfl, hno⟩ := ih.mp hcut
        refine ⟨rfl, fun hin => ?_⟩
        rcases List.infix_cons_iff.mp hin with h | h
        · exact hstrip (h.trans (List.prefix_append (d :: a') _))
        · exact hno h
      · rintro ⟨h, hno⟩
        cases a with
        | nil => exact absurd (h ▸ List.prefix_append _ b) hstrip
        | cons e a =>
          obtain ⟨rfl, hs⟩ := List.cons.inj h
          rw [ih.mpr ⟨hs, fun hin => hno (hin.trans (List.infix_cons List.infix_rfl))⟩]
          rfl

/-- What occurs occurs first somewhere. -/
theorem exists_first (hc : c ∉ needle) (h : c :: needle <:+: s) :
    ∃ a b, s = a ++ (c :: needle ++ b) ∧ ¬c :: needle <:+: a := by
  have hsome : cutFirst? (c :: needle) s ≠ none := fun hnone => cutFirst?_eq_none_iff.mp hnone h
  obtain ⟨⟨a, b⟩, hcut⟩ := Option.ne_none_iff_exists'.mp hsome
  exact ⟨a, b, (cutFirst?_eq_some_iff hc).mp hcut⟩

/-! ## Replacing -/

theorem replaceFirst_of_absent (h : ¬needle <:+: s) (r : List Char) : replaceFirst needle r s = s := by
  rw [replaceFirst, cutFirst?_eq_none_iff.mpr h]

theorem replaceFirst_append (hc : c ∉ needle) (h : ¬c :: needle <:+: a) (r b : List Char) :
    replaceFirst (c :: needle) r (a ++ (c :: needle ++ b)) = a ++ (r ++ b) := by
  rw [replaceFirst, (cutFirst?_eq_some_iff hc).mpr ⟨rfl, h⟩]
  exact List.append_assoc a r b

/-- The place of a character is known by two texts that differ in it. -/
theorem eq_of_append_cons {d : Char} {t' b' : List Char} (hcd : c ≠ d) (hs : a ++ c :: s = b ++ c :: t)
    (ht : a ++ d :: t' = b ++ d :: b') : a = b := by
  have hstarts : ∀ {a b x y x' y' : List Char}, a ++ c :: x = (a ++ b) ++ c :: y →
      a ++ d :: x' = (a ++ b) ++ d :: y' → b = [] := by
    rintro a (_ | ⟨e, b⟩) x y x' y' hc hd
    · rfl
    · rw [List.append_assoc, List.append_cancel_left_eq, List.cons_append, List.cons.injEq] at hc hd
      exact absurd (hc.1.trans hd.1.symm) hcd
  rcases List.append_eq_append_iff.mp hs with ⟨tail, rfl, -⟩ | ⟨tail, rfl, -⟩
  · rw [hstarts hs ht, List.append_nil]
  · rw [hstarts hs.symm ht.symm, List.append_nil]

/-! ## Borders -/

theorem infix_append_of_tails (h : ∀ tail ∈ needle.tails, tail ≠ [] → ¬tail <+: b) :
    needle <:+: a ++ b ↔ needle <:+: a ∨ needle <:+: b := by
  rw [List.infix_append_iff_ne_nil]
  refine ⟨?_, fun h => h.imp_right .inl⟩
  rintro (h' | h' | ⟨l, tail, -, hne, rfl, -, hb⟩)
  · exact .inl h'
  · exact .inr h'
  · exact absurd hb (h tail ((List.mem_tails _ _).mpr (List.suffix_append l tail)) hne)

/-- **A character that the needle lacks** separates. -/
theorem infix_append_cons (hc : c ∉ needle) : needle <:+: a ++ c :: b ↔ needle <:+: a ∨ needle <:+: b := by
  have htail : ∀ tail, tail <:+: needle → tail ≠ [] → ¬tail <+: c :: b := by
    rintro (_ | ⟨d, tail⟩) hin hne htail
    · exact hne rfl
    · rw [(List.cons_prefix_cons.mp htail).1] at hin
      exact hc (hin.subset List.mem_cons_self)
  rw [infix_append_of_tails fun tail hm => htail tail ((List.mem_tails _ _).mp hm).isInfix, List.infix_cons_iff]
  refine or_congr_right ⟨fun h => ?_, .inr⟩
  rcases h with h | h
  · by_cases hne : needle = []
    · rw [hne]
      exact List.nil_infix
    · exact absurd h (htail needle List.infix_rfl hne)
  · exact h

end SiteAssist.Text
