import SiteAssist.Text.Class

/-!
# Numerals

`boundedNat?` reads an unsigned decimal numeral below a bound: **digits, with or without a plus sign
before them** (`Numeral`), and nothing else (`boundedNat?_eq_some_iff`).  Leading zeros do not count, and
however many digits there are, the number decides.
-/

namespace SiteAssist.Text

/-- The decimal digits of a number, of which there is at least one. -/
def IsDigits (n : Nat) (s : List Char) : Prop :=
  s ≠ [] ∧ (∀ c ∈ s, c.isDigit = true) ∧ Nat.ofDigitChars 10 s 0 = n

/-- An unsigned numeral. -/
inductive Numeral (n : Nat) : List Char → Prop
  | digits {s : List Char} (h : IsDigits n s) : Numeral n s
  | signed {s : List Char} (h : IsDigits n s) : Numeral n ('+' :: s)

theorem Numeral.ne_nil {n : Nat} {s : List Char} (h : Numeral n s) : s ≠ [] := by
  cases h with
  | digits h => exact h.1
  | signed => exact List.cons_ne_nil _ _

/-- A numeral has only digits and the sign. -/
theorem Numeral.ne_of_mem {n : Nat} {s : List Char} (h : Numeral n s) {c d : Char} (hc : c ∈ s)
    (hd : d.isDigit = false) (hsign : d ≠ '+') : c ≠ d := by
  have hdigit {s : List Char} (hs : IsDigits n s) (hc : c ∈ s) : c ≠ d := by
    rintro rfl
    simp [hs.2.1 c hc] at hd
  cases h with
  | digits h => exact hdigit h hc
  | signed h =>
    rcases List.mem_cons.mp hc with rfl | hc
    · exact hsign.symm
    · exact hdigit h hc

/-- Digits are read on from a number, or from nothing. -/
theorem foldl_digits (s : List Char) : ∀ a : Option Nat,
    s.foldl (fun acc c => acc.bind fun n =>
        if c.isDigit then some (10 * n + (c.toNat - 48)) else none) a =
      a.bind fun n => if s.all (·.isDigit) then some (Nat.ofDigitChars 10 s n) else none := by
  induction s with
  | nil => intro a; cases a <;> simp
  | cons c s ih =>
    intro a
    rw [List.foldl_cons, ih]
    cases a with
    | none => rfl
    | some n =>
      have hzero : '0'.toNat = 48 := rfl
      rw [Option.bind_some, Option.bind_some, Nat.ofDigitChars_cons, List.all_cons, hzero]
      cases c.isDigit <;> rfl

theorem digitsValue?_eq_some_iff {s : List Char} {n : Nat} : digitsValue? s = some n ↔ IsDigits n s := by
  cases s with
  | nil => simp [digitsValue?, IsDigits]
  | cons c s =>
    rw [digitsValue?, foldl_digits, Option.bind_some, IsDigits]
    · simp
    · simp

/-- **What is read as a number below a bound** is a numeral of it. -/
theorem boundedNat?_eq_some_iff {bound n : Nat} {s : List Char} :
    boundedNat? bound s = some n ↔ n < bound ∧ Numeral n s := by
  rw [boundedNat?.eq_def]
  simp only [Option.filter_eq_some_iff, digitsValue?_eq_some_iff, decide_eq_true_eq]
  refine and_comm.trans (and_congr_right fun _ => ?_)
  split
  · rename_i rest
    refine ⟨.signed, fun h => ?_⟩
    cases h with
    | digits h => exact absurd (h.2.1 '+' List.mem_cons_self) (by decide)
    | signed h => exact h
  · rename_i hs
    refine ⟨.digits, fun h => ?_⟩
    cases h with
    | digits h => exact h
    | signed h => exact absurd rfl (hs _)

end SiteAssist.Text
