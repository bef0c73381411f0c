import SiteAssist.Text.Basic

/-!
# The order of texts

Texts are compared by the code points of their characters, the first difference deciding (`Text.ordered`).
It is a total order.
-/

namespace SiteAssist.Text

theorem toNat_ne {c d : Char} (h : c ≠ d) : c.toNat ≠ d.toNat := fun he =>
  h (Char.toNat_inj.mp he)

theorem ordered_cons_of_ne {c d : Char} (h : c ≠ d) (a b : List Char) :
    ordered (c :: a) (d :: b) = true ↔ c.toNat < d.toNat := by
  rw [ordered, if_neg h, decide_eq_true_iff]

theorem ordered_cons_self (c : Char) (a b : List Char) :
    ordered (c :: a) (c :: b) = ordered a b := by
  rw [ordered, if_pos rfl]

/-- One of two texts comes first. -/
theorem ordered_total : ∀ a b : List Char, ordered a b = true ∨ ordered b a = true := by
  intro a
  induction a with
  | nil => intro b; exact Or.inl rfl
  | cons c a ih =>
    intro b
    cases b with
    | nil => exact Or.inr rfl
    | cons d b =>
      by_cases h : c = d
      · subst h
        rw [ordered_cons_self, ordered_cons_self]
        exact ih b
      · rw [ordered_cons_of_ne h, ordered_cons_of_ne (Ne.symm h)]
        have := toNat_ne h
        omega

theorem ordered_antisymm : ∀ {a b : List Char}, ordered a b = true → ordered b a = true → a = b := by
  intro a
  induction a with
  | nil =>
    intro b _ h
    cases b with
    | nil => rfl
    | cons d b => simp [ordered] at h
  | cons c a ih =>
    intro b h h'
    cases b with
    | nil => simp [ordered] at h
    | cons d b =>
      by_cases hc : c = d
      · subst hc
        rw [ordered_cons_self] at h h'
        rw [ih h h']
      · rw [ordered_cons_of_ne hc] at h
        rw [ordered_cons_of_ne (Ne.symm hc)] at h'
        omega

theorem ordered_trans : ∀ {a b c : List Char}, ordered a b = true → ordered b c = true →
    ordered a c = true := by
  intro a
  induction a with
  | nil => intro _ _ _ _; rfl
  | cons x a ih =>
    intro b c h h'
    cases b with
    | nil => simp [ordered] at h
    | cons y b =>
      cases c with
      | nil => simp [ordered] at h'
      | cons z c =>
        by_cases hxy : x = y
        · subst hxy
          by_cases hxz : x = z
          · subst hxz
            rw [ordered_cons_self] at h h' ⊢
            exact ih h h'
          · rw [ordered_cons_of_ne hxz] at h' ⊢
            exact h'
        · rw [ordered_cons_of_ne hxy] at h
          by_cases hyz : y = z
          · subst hyz
            rw [ordered_cons_of_ne hxy]
            exact h
          · rw [ordered_cons_of_ne hyz] at h'
            have hxz : x ≠ z := fun he => by
              subst he
              omega
            rw [ordered_cons_of_ne hxz]
            omega

end SiteAssist.Text
