import Mathlib.Data.List.Basic
import Mathlib.Data.List.Dedup
import Mathlib.Data.List.Induction
import SiteAssist.Offer.Translations
import SiteAssist.Proofs.Text.Search

/-!
# What occurs on a line, and what occurs first in a list

A call site is found by the last occurrence of some needle on a line, which there is if **any needle
stands on it** (`LinePrefix.isSome_endOfLast?_iff`).

The texts of a module and the placeholders of a text are both offered without what occurred before.
What is left of a list then are its elements, in the order in which each of them **occurs first**
(`FirstOccurrences`, `firstOccurrences_distinct`).
-/

namespace SiteAssist

/-! ## Needles -/

namespace Text

/-- A text **occurs last somewhere** if it occurs. -/
theorem isSome_endOfLast?_iff {needle : List Char} : ∀ {s : List Char},
    (endOfLast? needle s).isSome = true ↔ needle <:+: s := by
  intro s
  induction s with
  | nil =>
    rw [endOfLast?, List.infix_nil]
    split
    · rename_i h
      simp [h]
    · rename_i h
      simp [h]
  | cons c s ih =>
    rw [endOfLast?, List.infix_cons_iff, ← isSome_stripPrefix?_iff, ← ih]
    cases endOfLast? needle s with
    | some n => simp
    | none => by_cases h : (stripPrefix? needle (c :: s)).isSome = true <;> simp [h]

end Text

theorem LinePrefix.isSome_endOfLast?_iff {s : List Char} {needles : List (List Char)} :
    (endOfLast? s needles).isSome = true ↔ ∃ needle ∈ needles, needle <:+: s := by
  rw [endOfLast?, Option.isSome_iff_ne_none, ne_eq, List.max?_eq_none_iff, List.filterMap_eq_nil_iff]
  push Not
  refine exists_congr fun needle => and_congr_right fun _ => ?_
  rw [← Option.isSome_iff_ne_none, Text.isSome_endOfLast?_iff]

/-! ## First occurrences -/

namespace Offer.Translations

variable {α : Type} [DecidableEq α]

/-- The elements of a list, each once and in the order of their first occurrences. -/
structure FirstOccurrences (as ds : List α) : Prop where
  mem_iff : ∀ a, a ∈ ds ↔ a ∈ as
  ordered : ds.Pairwise fun a b => as.idxOf a < as.idxOf b

theorem FirstOccurrences.nodup {as ds : List α} (h : FirstOccurrences as ds) : ds.Nodup :=
  h.ordered.imp fun hlt he => by
    rw [he] at hlt
    exact Nat.lt_irrefl _ hlt

/-- There are as many as there are different elements. -/
theorem FirstOccurrences.length_eq {as ds : List α} (h : FirstOccurrences as ds) :
    ds.length = as.dedup.length := by
  have hperm : ds.Perm as.dedup :=
    (List.perm_ext_iff_of_nodup h.nodup as.nodup_dedup).mpr fun a => by
      rw [h.mem_iff, List.mem_dedup]
  exact hperm.length_eq

theorem distinct_concat (as : List α) (a : α) :
    distinct (as ++ [a]) = if a ∈ distinct as then distinct as else distinct as ++ [a] := by
  rw [distinct, List.foldl_append, List.foldl_cons, List.foldl_nil, distinct]
  generalize as.foldl _ [] = acc
  by_cases h : a ∈ acc
  · rw [if_pos h, if_pos (List.mem_reverse.mpr h)]
  · rw [if_neg h, if_neg (by rwa [List.mem_reverse]), List.reverse_cons]

/-- **What is left is what occurred first.** -/
theorem firstOccurrences_distinct (as : List α) : FirstOccurrences as (distinct as) := by
  induction as using List.reverseRecOn with
  | nil => exact ⟨fun a => Iff.rfl, .nil⟩
  | append_singleton as a ih =>
    -- a further element at the end does not move what occurred before
    have hord : (distinct as).Pairwise fun x y => (as ++ [a]).idxOf x < (as ++ [a]).idxOf y :=
      ih.ordered.imp_of_mem fun {x y} hx hy h => by
        rwa [List.idxOf_append_of_mem ((ih.mem_iff x).mp hx),
          List.idxOf_append_of_mem ((ih.mem_iff y).mp hy)]
    rw [distinct_concat]
    split
    · rename_i h
      refine ⟨fun x => ?_, hord⟩
      rw [ih.mem_iff, List.mem_append, List.mem_singleton]
      constructor
      · exact Or.inl
      · rintro (hx | rfl)
        · exact hx
        · exact (ih.mem_iff x).mp h
    · rename_i h
      refine ⟨fun x => by rw [List.mem_append, List.mem_append, ih.mem_iff], ?_⟩
      refine List.pairwise_append.mpr ⟨hord, List.pairwise_singleton _ _, ?_⟩
      intro x hx y hy
      obtain rfl := List.mem_singleton.mp hy
      have hx' := (ih.mem_iff x).mp hx
      have hnew : y ∉ as := fun hm => h ((ih.mem_iff y).mpr hm)
      rw [List.idxOf_append_of_mem hx', List.idxOf_append_of_notMem hnew]
      exact Nat.lt_add_right _ (List.idxOf_lt_length_of_mem hx')

end Offer.Translations

end SiteAssist
