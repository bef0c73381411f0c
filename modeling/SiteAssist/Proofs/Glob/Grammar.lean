import SiteAssist.Proofs.Glob.Matching
import SiteAssist.Proofs.Outcome

/-!
# The grammar of patterns

`Pattern.parse` reads a text with a position and fuel beside it.  `Reads` is the grammar alone, and
`parse_eq_ok_iff` says that parsing reads it: what follows speaks of `Reads` only.

* `Reads.placed`: a `**` is read **only where a component starts**, which is what the search for a
  match relies on.
* `reads_component`: the tokens of one component are a `**` or stay within it (`Inner`).
* `reads_append_cons`: a separator in a text separates its tokens.
-/

namespace SiteAssist.Glob

/-- The tokens that a text is read as; the first argument says whether a component starts with
the text. -/
inductive Reads : Bool → List Char → List Token → Prop
  | nil {b : Bool} : Reads b [] []
  | deepEnd : Reads true ['*', '*'] [.anyDepth]
  | deep {s : List Char} {ts : List Token} :
      Reads true s ts → Reads true ('*' :: '*' :: '/' :: s) (.anyDepth :: ts)
  | run {b : Bool} {s : List Char} {ts : List Token} :
      s.head? ≠ some '*' → Reads false s ts → Reads b ('*' :: s) (.anyRun :: ts)
  | any {b : Bool} {s : List Char} {ts : List Token} :
      Reads false s ts → Reads b ('?' :: s) (.anyChar :: ts)
  | cls {b : Bool} {s after : List Char} {t : Token} {ts : List Token} :
      parseClass? s = some (t, after) → Reads false after ts → Reads b ('[' :: s) (t :: ts)
  | lit {b : Bool} {c : Char} {s : List Char} {ts : List Token} :
      c ≠ '*' → c ≠ '?' → c ≠ '[' → Reads (c == '/') s ts → Reads b (c :: s) (.literal c :: ts)

theorem length_of_cutAtFirst? {p : Char → Bool} : ∀ {s before after : List Char},
    Text.cutAtFirst? p s = some (before, after) → after.length < s.length := by
  intro s
  induction s with
  | nil => intro _ _ h; simp [Text.cutAtFirst?] at h
  | cons c cs ih =>
    intro before after h
    rw [Text.cutAtFirst?] at h
    split at h
    · simp only [Option.some.injEq, Prod.mk.injEq] at h
      simp [h.2]
    · obtain ⟨x, hx, he⟩ := Option.map_eq_some_iff.mp h
      simp only [Prod.mk.injEq] at he
      have := ih hx
      rw [he.2] at this
      rw [List.length_cons]
      omega

/-- A class is one token and leaves less than there was. -/
theorem parseClass?_eq_some {s after : List Char} {t : Token} (h : parseClass? s = some (t, after)) :
    after.length < s.length ∧ ∃ items, t = .within items ∨ t = .except items := by
  rw [parseClass?.eq_def] at h
  split at h
  · obtain ⟨x, hx, he⟩ := Option.map_eq_some_iff.mp h
    simp only [Prod.mk.injEq] at he
    have := length_of_cutAtFirst? hx
    rw [he.2] at this
    exact ⟨by simp only [List.length_cons]; omega, _, Or.inr he.1.symm⟩
  · simp at h
  · obtain ⟨x, hx, he⟩ := Option.map_eq_some_iff.mp h
    simp only [Prod.mk.injEq] at he
    have := length_of_cutAtFirst? hx
    rw [he.2] at this
    exact ⟨by simp only [List.length_cons]; omega, _, Or.inl he.1.symm⟩
  · simp at h

/-! ## One token at a time -/

section
variable {position fuel : Nat} {b : Bool} {c : Char} {s after : List Char} {t : Token}

theorem parseFrom_nil : parseFrom position b [] fuel = .ok [] := by
  cases fuel <;> rfl

theorem parseFrom_deepEnd : parseFrom position true ['*', '*'] (fuel + 1) = .ok [.anyDepth] := rfl

theorem parseFrom_deep :
    parseFrom position true ('*' :: '*' :: '/' :: s) (fuel + 1) =
      (parseFrom (position + 3) true s fuel).map (.anyDepth :: ·) := rfl

theorem parseFrom_run (hne : s.head? ≠ some '*') :
    parseFrom position b ('*' :: s) (fuel + 1) =
      (parseFrom (position + 1) false s fuel).map (.anyRun :: ·) := by
  cases s with
  | nil => rfl
  | cons c s =>
    have hc : c ≠ '*' := fun e => hne (by rw [e, List.head?_cons])
    rw [parseFrom]
    · exact fun _ e => hc (List.cons.inj e).1
    · exact fun _ e => hc (List.cons.inj e).1

theorem parseFrom_any :
    parseFrom position b ('?' :: s) (fuel + 1) =
      (parseFrom (position + 1) false s fuel).map (.anyChar :: ·) := rfl

theorem parseFrom_class (h : parseClass? s = some (t, after)) :
    parseFrom position b ('[' :: s) (fuel + 1) =
      (parseFrom (position + 1 + (s.length - after.length)) false after fuel).map (t :: ·) := by
  rw [parseFrom, h]

theorem parseFrom_literal (h₁ : c ≠ '*') (h₂ : c ≠ '?') (h₃ : c ≠ '[') :
    parseFrom position b (c :: s) (fuel + 1) =
      (parseFrom (position + 1) (c == '/') s fuel).map (.literal c :: ·) := by
  rw [parseFrom]
  · exact h₁
  · exact h₂
  · exact h₃

/-- A `**` that is parsed is a component of its own. -/
theorem stars_of_parseFrom {ts : List Token}
    (h : parseFrom position b ('*' :: '*' :: s) (fuel + 1) = .ok ts) :
    b = true ∧ (s = [] ∧ ts = [.anyDepth] ∨ ∃ rest us, s = '/' :: rest ∧
      parseFrom (position + 3) true rest fuel = .ok us ∧ ts = .anyDepth :: us) := by
  rw [parseFrom.eq_def] at h
  simp only at h
  split at h
  · cases h
  · next rest _ heq =>
    cases heq
    split at h
    · cases h
    · next hstart =>
      refine ⟨not_not.mp hstart, ?_⟩
      split at h
      · cases h
        exact Or.inl ⟨rfl, rfl⟩
      · obtain ⟨us, hus, rfl⟩ := map_eq_ok_iff.mp h
        exact Or.inr ⟨_, us, rfl, hus, rfl⟩
      · cases h
  · next hne => exact (hne s rfl).elim

end

/-- What is parsed is what the grammar reads, with any fuel above the length. -/
theorem reads_of_parseFrom : ∀ (fuel position : Nat) (b : Bool) (s : List Char) (ts : List Token),
    s.length < fuel → parseFrom position b s fuel = .ok ts → Reads b s ts := by
  intro fuel
  induction fuel with
  | zero => intro _ _ _ _ hl; omega
  | succ fuel ih =>
    intro position b s ts hl h
    match s with
    | [] =>
      cases h
      exact .nil
    | c :: s =>
      have hs : s.length < fuel := Nat.lt_of_succ_lt_succ hl
      by_cases hstar : c = '*'
      · subst hstar
        by_cases hhead : s.head? = some '*'
        · obtain ⟨s, rfl⟩ := List.head?_eq_some_iff.mp hhead
          obtain ⟨rfl, ⟨rfl, rfl⟩ | ⟨rest, us, rfl, hus, rfl⟩⟩ := stars_of_parseFrom h
          · exact .deepEnd
          · simp only [List.length_cons] at hs
            exact .deep (ih _ _ _ _ (by omega) hus)
        · rw [parseFrom_run hhead] at h
          obtain ⟨us, hus, rfl⟩ := map_eq_ok_iff.mp h
          exact .run hhead (ih _ _ _ _ hs hus)
      by_cases hany : c = '?'
      · subst hany
        obtain ⟨us, hus, rfl⟩ := map_eq_ok_iff.mp h
        exact .any (ih _ _ _ _ hs hus)
      by_cases hbracket : c = '['
      · subst hbracket
        cases hclass : parseClass? s with
        | none =>
          rw [parseFrom, hclass] at h
          cases h
        | some found =>
          obtain ⟨t, after⟩ := found
          rw [parseFrom_class hclass] at h
          obtain ⟨us, hus, rfl⟩ := map_eq_ok_iff.mp h
          exact .cls hclass (ih _ _ _ _ (Nat.lt_trans (parseClass?_eq_some hclass).1 hs) hus)
      · rw [parseFrom_literal hstar hany hbracket] at h
        obtain ⟨us, hus, rfl⟩ := map_eq_ok_iff.mp h
        exact .lit hstar hany hbracket (ih _ _ _ _ hs hus)

/-- What the grammar reads is parsed, with any fuel above the length: each step spends one unit
and at least one character. -/
theorem parseFrom_of_reads {b : Bool} {s : List Char} {ts : List Token} (h : Reads b s ts) :
    ∀ fuel position, s.length < fuel → parseFrom position b s fuel = .ok ts := by
  induction h with
  | nil => exact fun _ _ _ => parseFrom_nil
  | deepEnd =>
    intro fuel position hl
    match fuel, hl with
    | _ + 1, _ => exact parseFrom_deepEnd
  | deep _ ih =>
    intro fuel position hl
    match fuel, hl with
    | fuel + 1, hl =>
      simp only [List.length_cons] at hl
      rw [parseFrom_deep, ih fuel _ (by omega)]
      rfl
  | run hne _ ih =>
    intro fuel position hl
    match fuel, hl with
    | fuel + 1, hl =>
      rw [parseFrom_run hne, ih fuel _ (Nat.lt_of_succ_lt_succ hl)]
      rfl
  | any _ ih =>
    intro fuel position hl
    match fuel, hl with
    | fuel + 1, hl =>
      rw [parseFrom_any, ih fuel _ (Nat.lt_of_succ_lt_succ hl)]
      rfl
  | cls hcls _ ih =>
    intro fuel position hl
    match fuel, hl with
    | fuel + 1, hl =>
      have hless := (parseClass?_eq_some hcls).1
      simp only [List.length_cons] at hl
      rw [parseFrom_class hcls, ih fuel _ (by omega)]
      rfl
  | lit h₁ h₂ h₃ _ ih =>
    intro fuel position hl
    match fuel, hl with
    | fuel + 1, hl =>
      rw [parseFrom_literal h₁ h₂ h₃, ih fuel _ (Nat.lt_of_succ_lt_succ hl)]
      rfl

/-- **Parsing reads the grammar.** -/
theorem parse_eq_ok_iff {source : String} {p : Pattern} :
    Pattern.parse source = .ok p ↔ p.source = source ∧ Reads true source.toList p.tokens := by
  rw [Pattern.parse, map_eq_ok_iff]
  constructor
  · rintro ⟨ts, h, rfl⟩
    exact ⟨rfl, reads_of_parseFrom _ 0 true _ ts (by omega) h⟩
  · rintro ⟨rfl, h⟩
    exact ⟨p.tokens, parseFrom_of_reads h _ 0 (by omega), rfl⟩

theorem Reads.placed {b : Bool} {s : List Char} {ts : List Token} (h : Reads b s ts) :
    Placed b ts := by
  induction h with
  | nil => trivial
  | deepEnd => exact ⟨rfl, trivial⟩
  | deep _ ih => exact ⟨rfl, ih⟩
  | run _ _ ih => exact ih
  | any _ ih => exact ih
  | cls hcls _ ih =>
    obtain ⟨_, items, rfl | rfl⟩ := parseClass?_eq_some hcls
    · exact ih
    · exact ih
  | lit _ _ _ _ ih => exact ih

/-! ## The tokens of a component -/

/-- Tokens that stay within a component. -/
def Inner (ts : List Token) : Prop := ∀ t ∈ ts, t ≠ .anyDepth ∧ t ≠ .literal '/'

/-- A pattern that is led by an ordinary character fits only texts led by it. -/
theorem Reads.head?_of_denotes {b : Bool} {s : List Char} {ts : List Token} (h : Reads b s ts)
    {c : Char} (hc : s.head? = some c) (hne : c ≠ '*' ∧ c ≠ '?' ∧ c ≠ '[') {t : List Char}
    (ht : Denotes ts t) : t.head? = some c := by
  cases h with
  | nil => simp at hc
  | deepEnd | deep | run => exact absurd (Option.some.inj hc).symm hne.1
  | any => exact absurd (Option.some.inj hc).symm hne.2.1
  | cls => exact absurd (Option.some.inj hc).symm hne.2.2
  | lit =>
    cases Option.some.inj hc
    cases ht with
    | char hfit _ =>
      rw [Token.fits_literal, beq_iff_eq] at hfit
      rw [List.head?_cons, hfit]

theorem inner_cons {t : Token} {ts : List Token} (h₁ : t ≠ .anyDepth) (h₂ : t ≠ .literal '/')
    (h : Inner ts) : Inner (t :: ts) := by
  intro x hx
  rcases List.mem_cons.mp hx with rfl | hx
  · exact ⟨h₁, h₂⟩
  · exact h x hx

theorem Inner.tail {t : Token} {ts : List Token} (h : Inner (t :: ts)) : Inner ts :=
  fun x hx => h x (List.mem_cons_of_mem t hx)

/-- What stays within a component reaches no separator. -/
theorem notMem_of_denotes {ts : List Token} (h : Inner ts) {s : List Char} (hs : Denotes ts s) :
    '/' ∉ s := by
  induction hs with
  | nil => simp
  | @char t ts c s hc _ ih =>
    have ht := h t List.mem_cons_self
    have hne : c ≠ '/' := by
      rintro rfl
      cases t <;> simp_all
      exact ht hc.symm
    simp [Ne.symm hne, ih h.tail]
  | run hu _ ih => simp [hu, ih h.tail]
  | depth _ _ _ => exact absurd rfl (h .anyDepth List.mem_cons_self).1

/-- The tokens of **one component**: a `**`, or tokens within it. -/
theorem reads_component {b : Bool} {u : List Char} {ts : List Token} (h : Reads b u ts) :
    '/' ∉ u → '[' ∉ u → (b = true ∧ u = ['*', '*'] ∧ ts = [.anyDepth]) ∨ Inner ts := by
  induction h with
  | nil => intro _ _; exact Or.inr (by intro t ht; simp at ht)
  | deepEnd => intro _ _; exact Or.inl ⟨rfl, rfl, rfl⟩
  | deep _ _ => intro h _; simp at h
  | run hne hs ih =>
    intro h₁ h₂
    rcases ih (by simp_all) (by simp_all) with ⟨hb, _⟩ | hi
    · simp at hb
    · exact Or.inr (inner_cons (by simp) (by simp) hi)
  | any hs ih =>
    intro h₁ h₂
    rcases ih (by simp_all) (by simp_all) with ⟨hb, _⟩ | hi
    · simp at hb
    · exact Or.inr (inner_cons (by simp) (by simp) hi)
  | cls _ _ _ => intro _ h; simp at h
  | @lit b c s ts hc _ _ hs ih =>
    intro h₁ h₂
    have hne : c ≠ '/' := fun e => h₁ (by simp [e])
    rcases ih (by simp_all) (by simp_all) with ⟨hb, _⟩ | hi
    · exact absurd (eq_of_beq hb) hne
    · exact Or.inr (inner_cons (by simp) (by simpa using hne) hi)

/-- A separator behind one character is the first one. -/
theorem eq_of_append_eq_cons {c : Char} {u v s : List Char} (hsep : '/' ∉ u) (hc : c ≠ '/')
    (h : u ++ '/' :: v = c :: '/' :: s) : u = [c] ∧ v = s := by
  cases u with
  | nil => exact absurd (List.cons.inj h).1.symm hc
  | cons d u =>
    rw [List.cons_append, List.cons.injEq] at h
    obtain ⟨rfl, hrest⟩ := h
    cases u with
    | nil => exact ⟨rfl, (List.cons.inj hrest).2⟩
    | cons e u =>
      have he : e = '/' := (List.cons.inj hrest).1
      exact absurd (by simp [he]) hsep

/-- **A separator in a pattern separates its tokens**, and one after a `**` goes with it. -/
theorem reads_append_cons {u v : List Char} (hsep : '/' ∉ u) (hcls : '[' ∉ u) :
    ∀ {b : Bool} {ts : List Token}, Reads b (u ++ '/' :: v) ts →
      (b = true ∧ u = ['*', '*'] ∧ ∃ vs, Reads true v vs ∧ ts = .anyDepth :: vs) ∨
      ∃ us vs, Reads b u us ∧ Inner us ∧ Reads true v vs ∧ ts = us ++ .literal '/' :: vs := by
  induction u with
  | nil =>
    intro b ts h
    cases h with
    | lit _ _ _ hv => exact Or.inr ⟨[], _, .nil, by intro t ht; simp at ht, hv, rfl⟩
  | cons c u ih =>
    intro b ts h
    have hsep' : '/' ∉ u := fun hm => hsep (List.mem_cons_of_mem c hm)
    have hcls' : '[' ∉ u := fun hm => hcls (List.mem_cons_of_mem c hm)
    rw [List.cons_append] at h
    -- the rest of a component never starts one, so its tokens stay within it
    have inner : ∀ {us : List Token}, Reads false (u ++ '/' :: v) us →
        ∃ xs vs, Reads false u xs ∧ Inner xs ∧ Reads true v vs ∧ us = xs ++ .literal '/' :: vs := by
      intro us hus
      rcases ih hsep' hcls' hus with ⟨hb, _⟩ | hu
      · simp at hb
      · exact hu
    generalize hw : u ++ '/' :: v = w at h
    cases h with
    | deepEnd =>
      have hmem : '/' ∈ ['*'] := hw ▸ List.mem_append_right u List.mem_cons_self
      exact absurd hmem (by simp)
    | deep hv =>
      obtain ⟨rfl, rfl⟩ := eq_of_append_eq_cons hsep' (by decide) hw
      exact Or.inl ⟨rfl, rfl, _, hv, rfl⟩
    | run hne hs =>
      subst hw
      obtain ⟨xs, vs, hx, hi, hv, rfl⟩ := inner hs
      refine Or.inr ⟨.anyRun :: xs, vs, .run ?_ hx, inner_cons (by simp) (by simp) hi, hv, rfl⟩
      intro he
      cases u with
      | nil => simp at he
      | cons d u => exact hne (by simpa using he)
    | any hs =>
      subst hw
      obtain ⟨xs, vs, hx, hi, hv, rfl⟩ := inner hs
      exact Or.inr ⟨.anyChar :: xs, vs, .any hx, inner_cons (by simp) (by simp) hi, hv, rfl⟩
    | cls _ _ => exact absurd List.mem_cons_self hcls
    | lit h₁ h₂ h₃ hs =>
      subst hw
      have hne : c ≠ '/' := fun e => hsep (by simp [e])
      have hb : (c == '/') = false := by simpa using hne
      rw [hb] at hs
      obtain ⟨xs, vs, hx, hi, hv, rfl⟩ := inner hs
      exact Or.inr ⟨.literal c :: xs, vs, .lit h₁ h₂ h₃ (hb ▸ hx),
        inner_cons (by simp) (by simpa using hne) hi, hv, rfl⟩

end SiteAssist.Glob
