import SiteAssist.Glob.Pattern

/-!
# What a pattern stands for

`matchTokens` looks for a way to read a text against tokens: a run grows one character at a time
until what follows fits, and the search stops early as soon as the text has run out.  `Denotes` is
what the tokens mean, without a search: a run is any stretch without a separator, `**` any number of
whole components.

* `matchTokens_eq_full_iff`: **the search finds a reading whenever there is one**, for tokens in
  which `**` stands only where a component starts (`Placed`).

A `**` may also take all that is left, whatever it is, if nothing is asked for after it.
-/

namespace SiteAssist.Glob

/-- A text is one that the tokens stand for. -/
inductive Denotes : List Token → List Char → Prop
  | nil : Denotes [] []
  | char {t : Token} {ts : List Token} {c : Char} {s : List Char} :
      t.fits c = true → Denotes ts s → Denotes (t :: ts) (c :: s)
  | run {ts : List Token} {u s : List Char} :
      '/' ∉ u → Denotes ts s → Denotes (.anyRun :: ts) (u ++ s)
  | depth {ts : List Token} {u s : List Char} :
      u = [] ∨ u.getLast? = some '/' ∨ s = [] → Denotes ts s → Denotes (.anyDepth :: ts) (u ++ s)

/-- Every `**` stands where a component starts; the first argument says whether one starts at
the first token. -/
def Placed : Bool → List Token → Prop
  | _, [] => True
  | atStart, .anyDepth :: ts => atStart = true ∧ Placed true ts
  | _, .literal c :: ts => Placed (c == '/') ts
  | _, _ :: ts => Placed false ts

/-! ## Tokens taken apart -/

namespace Token

@[simp] theorem fits_literal (c d : Char) : (literal d).fits c = (c == d) := rfl

@[simp] theorem fits_anyChar (c : Char) : anyChar.fits c = (c != '/') := rfl

@[simp] theorem fits_anyRun (c : Char) : anyRun.fits c = false := rfl

@[simp] theorem fits_anyDepth (c : Char) : anyDepth.fits c = false := rfl

@[simp] theorem fits_within (c : Char) (items : List ClassItem) :
    (within items).fits c = (c != '/' && items.any (·.has c)) := rfl

@[simp] theorem fits_except (c : Char) (items : List ClassItem) :
    (except items).fits c = (c != '/' && !items.any (·.has c)) := rfl

end Token

theorem denotes_nil_iff {s : List Char} : Denotes [] s ↔ s = [] := by
  constructor
  · intro h; cases h; rfl
  · rintro rfl; exact .nil

/-- A token that stands for one character. -/
def Token.isSingle : Token → Bool
  | .anyRun => false
  | .anyDepth => false
  | _ => true

theorem denotes_single_cons {t : Token} (ht : t.isSingle = true) {ts : List Token}
    {s : List Char} :
    Denotes (t :: ts) s ↔ ∃ c r, s = c :: r ∧ t.fits c = true ∧ Denotes ts r := by
  constructor
  · intro h
    cases h with
    | char hc hr => exact ⟨_, _, rfl, hc, hr⟩
    | run _ _ => simp [Token.isSingle] at ht
    | depth _ _ => simp [Token.isSingle] at ht
  · rintro ⟨c, r, rfl, hc, hr⟩
    exact .char hc hr

theorem denotes_anyRun_cons {ts : List Token} {s : List Char} :
    Denotes (.anyRun :: ts) s ↔ ∃ u v, s = u ++ v ∧ '/' ∉ u ∧ Denotes ts v := by
  constructor
  · intro h
    cases h with
    | char hc _ => simp at hc
    | run hu hv => exact ⟨_, _, rfl, hu, hv⟩
  · rintro ⟨u, v, rfl, hu, hv⟩
    exact .run hu hv

theorem denotes_anyDepth_cons {ts : List Token} {s : List Char} :
    Denotes (.anyDepth :: ts) s ↔
      ∃ u v, s = u ++ v ∧ (u = [] ∨ u.getLast? = some '/' ∨ v = []) ∧ Denotes ts v := by
  constructor
  · intro h
    cases h with
    | char hc _ => simp at hc
    | depth hu hv => exact ⟨_, _, rfl, hu, hv⟩
  · rintro ⟨u, v, rfl, hu, hv⟩
    exact .depth hu hv

/-- Tokens one after the other stand for texts one after the other. -/
theorem denotes_append {ts us : List Token} (h : ∀ t ∈ ts, t ≠ .anyDepth) {s : List Char} :
    Denotes (ts ++ us) s ↔ ∃ u v, s = u ++ v ∧ Denotes ts u ∧ Denotes us v := by
  induction ts generalizing s with
  | nil =>
    constructor
    · intro hs; exact ⟨[], s, rfl, .nil, hs⟩
    · rintro ⟨u, v, rfl, hu, hv⟩
      rw [denotes_nil_iff.mp hu]
      exact hv
  | cons t ts ih =>
    have hts : ∀ t ∈ ts, t ≠ .anyDepth := fun x hx => h x (List.mem_cons_of_mem t hx)
    have ht : t ≠ .anyDepth := h t List.mem_cons_self
    rw [List.cons_append]
    by_cases hr : t = .anyRun
    · subst hr
      simp only [denotes_anyRun_cons, ih hts]
      constructor
      · rintro ⟨x, _, rfl, hx, u, v, rfl, hu, hv⟩
        exact ⟨x ++ u, v, by simp, ⟨x, u, rfl, hx, hu⟩, hv⟩
      · rintro ⟨_, v, rfl, ⟨x, u, rfl, hx, hu⟩, hv⟩
        exact ⟨x, u ++ v, by simp, hx, u, v, rfl, hu, hv⟩
    · have hs : t.isSingle = true := by cases t <;> simp_all [Token.isSingle]
      simp only [denotes_single_cons hs, ih hts]
      constructor
      · rintro ⟨c, _, rfl, hc, u, v, rfl, hu, hv⟩
        exact ⟨c :: u, v, rfl, ⟨c, u, rfl, hc, hu⟩, hv⟩
      · rintro ⟨_, v, rfl, ⟨c, u, rfl, hc, hu⟩, hv⟩
        exact ⟨c, u ++ v, rfl, hc, u, v, rfl, hu, hv⟩

/-! ## Growing runs -/

/-- What a run tries: nothing, then one character more each time. -/
def growRun (rest : List Char → Outcome) (s : List Char) : Outcome :=
  match rest s with
  | .mismatch => scanRun rest s
  | out => out

/-- What a `**` tries: nothing, then one component more each time. -/
def growDepth (rest : List Char → Outcome) (s : List Char) : Outcome :=
  match rest s with
  | .mismatch => scanDepth rest s
  | out => out

theorem matchTokens_anyRun (ts : List Token) (s : List Char) :
    matchTokens (.anyRun :: ts) s = growRun (matchTokens ts) s := by
  cases h : matchTokens ts s <;> simp only [matchTokens, growRun, h]

theorem matchTokens_anyDepth (ts : List Token) (s : List Char) :
    matchTokens (.anyDepth :: ts) s = growDepth (matchTokens ts) s := by
  cases h : matchTokens ts s <;> simp only [matchTokens, growDepth, h]

theorem matchTokens_single_nil {t : Token} (ht : t.isSingle = true) (ts : List Token) :
    matchTokens (t :: ts) [] = .exhausted := by
  cases t <;> simp_all [matchTokens, Token.isSingle]

theorem matchTokens_single_cons {t : Token} (ht : t.isSingle = true) (ts : List Token) (c : Char)
    (s : List Char) :
    matchTokens (t :: ts) (c :: s) = if t.fits c = true then matchTokens ts s else .mismatch := by
  cases t <;> simp_all [matchTokens, Token.isSingle]

theorem mismatch_of_grow {out next : Outcome}
    (h : (match out with | .mismatch => next | out => out) = .mismatch) : out = .mismatch := by
  cases out with
  | full => exact h
  | mismatch => rfl
  | exhausted => exact h

/-- A run that ends in no mismatch ends at the first place that is none. -/
theorem growRun_eq {rest : List Char → Outcome} {out : Outcome} (ho : out ≠ .mismatch) :
    ∀ {s : List Char}, growRun rest s = out →
      ∃ u v, s = u ++ v ∧ '/' ∉ u ∧ rest v = out ∧
        ∀ u' v', s = u' ++ v' → u'.length < u.length → rest v' = .mismatch := by
  intro s
  induction s with
  | nil =>
    intro h
    refine ⟨[], [], rfl, by simp, ?_, by simp⟩
    rw [growRun] at h
    cases hr : rest [] <;> simp_all [scanRun]
  | cons c cs ih =>
    intro h
    by_cases hm : rest (c :: cs) = .mismatch
    · rw [growRun, hm] at h
      simp only [scanRun] at h
      by_cases hc : c = '/'
      · rw [if_pos (by simpa using hc)] at h
        exact absurd h.symm ho
      · rw [if_neg (by simpa using hc)] at h
        obtain ⟨u, v, rfl, hu, hv, hmin⟩ := ih h
        refine ⟨c :: u, v, rfl, by simp [hu, Ne.symm hc], hv, ?_⟩
        intro u' v' hs hlt
        cases u' with
        | nil => rw [← List.nil_append v', ← hs, hm]
        | cons c' u' =>
          rw [List.cons_append, List.cons.injEq] at hs
          exact hmin u' v' hs.2 (by simpa using hlt)
    · refine ⟨[], c :: cs, rfl, by simp, ?_, by simp⟩
      rw [growRun] at h
      cases hr : rest (c :: cs) <;> simp_all

theorem mismatch_of_growRun {rest : List Char → Outcome} :
    ∀ {s : List Char}, growRun rest s = .mismatch →
      ∀ u v, s = u ++ v → '/' ∉ u → rest v = .mismatch := by
  intro s
  induction s with
  | nil =>
    intro h u v hs _
    rw [(List.append_eq_nil_iff.mp hs.symm).2]
    exact mismatch_of_grow h
  | cons c cs ih =>
    intro h u v hs hu
    have hm : rest (c :: cs) = .mismatch := mismatch_of_grow h
    cases u with
    | nil => rw [← List.nil_append v, ← hs, hm]
    | cons c' u =>
      rw [List.cons_append, List.cons.injEq] at hs
      obtain ⟨rfl, hs⟩ := hs
      have hc : c ≠ '/' := fun e => hu (by simp [e])
      rw [growRun, hm] at h
      simp only [scanRun] at h
      rw [if_neg (by simpa using hc)] at h
      exact ih h u v hs fun hmem => hu (List.mem_cons_of_mem c hmem)

/-- The stretches that a `**` tries. -/
def Whole (u v : List Char) : Prop := u.getLast? = some '/' ∨ v = []

theorem whole_cons {c : Char} {u v : List Char} (hu : u ≠ []) :
    Whole (c :: u) v ↔ Whole u v := by
  obtain ⟨d, w, rfl⟩ := List.exists_cons_of_ne_nil hu
  rw [Whole, Whole, List.getLast?_cons_cons]

theorem scanDepth_cons (rest : List Char → Outcome) (c : Char) (cs : List Char) :
    scanDepth rest (c :: cs) = if c = '/' then growDepth rest cs else scanDepth rest cs := by
  by_cases hc : c = '/'
  · cases h : rest cs <;> simp [scanDepth, growDepth, hc, h]
  · simp [scanDepth, hc]

theorem scanDepth_eq {rest : List Char → Outcome} {out : Outcome} :
    ∀ {s : List Char}, scanDepth rest s = out →
      ∃ u v, s = u ++ v ∧ Whole u v ∧ rest v = out ∧
        ∀ u' v', s = u' ++ v' → u'.getLast? = some '/' → u'.length < u.length →
          rest v' = .mismatch := by
  intro s
  induction s with
  | nil => intro h; exact ⟨[], [], rfl, Or.inr rfl, h, by simp⟩
  | cons c cs ih =>
    intro h
    rw [scanDepth_cons] at h
    -- what is tried from `cs` on, shifted by the character before it
    have shift : scanDepth rest cs = out →
        (c = '/' → rest cs = .mismatch) →
        ∃ u v, c :: cs = u ++ v ∧ Whole u v ∧ rest v = out ∧
          ∀ u' v', c :: cs = u' ++ v' → u'.getLast? = some '/' → u'.length < u.length →
            rest v' = .mismatch := by
      intro h hfirst
      obtain ⟨u, v, rfl, hw, hv, hmin⟩ := ih h
      refine ⟨c :: u, v, rfl, ?_, hv, ?_⟩
      · by_cases hu : u = []
        · subst hu
          exact Or.inr (hw.resolve_left (by simp))
        · exact (whole_cons hu).mpr hw
      · intro u' v' hs hlast hlt
        cases u' with
        | nil => simp at hlast
        | cons c' u' =>
          rw [List.cons_append, List.cons.injEq] at hs
          obtain ⟨rfl, hs⟩ := hs
          by_cases hu' : u' = []
          · subst hu'
            rw [← List.nil_append v', ← hs]
            exact hfirst (by simpa using hlast)
          · obtain ⟨d, w, rfl⟩ := List.exists_cons_of_ne_nil hu'
            rw [List.getLast?_cons_cons] at hlast
            exact hmin _ v' hs hlast (by simpa using hlt)
    by_cases hc : c = '/'
    · rw [if_pos hc, growDepth] at h
      by_cases hm : rest cs = .mismatch
      · rw [hm] at h
        exact shift h fun _ => hm
      · refine ⟨[c], cs, rfl, Or.inl (by simp [hc]), ?_, ?_⟩
        · cases hr : rest cs <;> simp_all
        · intro u' v' _ hlast hlt
          simp only [List.length_singleton, Nat.lt_one_iff, List.length_eq_zero_iff] at hlt
          simp [hlt] at hlast
    · rw [if_neg hc] at h
      exact shift h fun e => absurd e hc

theorem mismatch_of_scanDepth {rest : List Char → Outcome} :
    ∀ {s : List Char}, scanDepth rest s = .mismatch →
      ∀ u v, s = u ++ v → Whole u v → rest v = .mismatch := by
  intro s
  induction s with
  | nil =>
    intro h u v hs _
    rw [(List.append_eq_nil_iff.mp hs.symm).2]
    exact h
  | cons c cs ih =>
    intro h u v hs hw
    rw [scanDepth_cons] at h
    have htail : scanDepth rest cs = .mismatch := by
      by_cases hc : c = '/'
      · rw [if_pos hc, growDepth] at h
        rw [mismatch_of_grow h] at h
        exact h
      · rwa [if_neg hc] at h
    cases u with
    | nil =>
      rcases hw with hw | hw
      · simp at hw
      · simp [hw] at hs
    | cons c' u =>
      rw [List.cons_append, List.cons.injEq] at hs
      obtain ⟨rfl, hs⟩ := hs
      by_cases hu : u = []
      · subst hu
        rw [List.nil_append] at hs
        subst hs
        rcases hw with hw | hw
        · have hc : c = '/' := by simpa using hw
          rw [if_pos hc, growDepth] at h
          exact mismatch_of_grow h
        · exact ih htail [] _ rfl (Or.inr hw)
      · exact ih htail u v hs ((whole_cons hu).mp hw)

/-! ## The search -/

/-- A place further on in a text at which a component starts, or its end. -/
def StartsIn (s v : List Char) : Prop := v = s ∨ v = [] ∨ ('/' :: v) <:+ s

theorem suffix_of_startsIn {s v : List Char} (h : StartsIn s v) : v <:+ s := by
  rcases h with rfl | rfl | h
  · exact List.suffix_refl v
  · exact List.nil_suffix
  · exact (List.suffix_cons '/' v).trans h

/-- Of two ends of a text the shorter is an end of the longer. -/
theorem suffix_of_length_le {u w x y : List Char} (h : u ++ x = w ++ y)
    (hl : u.length ≤ w.length) : y <:+ x :=
  List.suffix_of_suffix_length_le (h ▸ List.suffix_append w y) (List.suffix_append u x) (by
    have := congrArg List.length h
    simp only [List.length_append] at this
    omega)

/-- The places that the tokens may be tried at, once the text has run out in one try. -/
def Later (ts : List Token) (s v : List Char) : Prop :=
  v <:+ s ∧ (ts.head? = some .anyDepth → StartsIn s v)

theorem placed_tail {t : Token} {ts : List Token} {b : Bool} (h : Placed b (t :: ts)) :
    ∃ b', Placed b' ts ∧ (b' = true → t = .anyDepth ∨ t = .literal '/') := by
  cases t with
  | anyDepth => exact ⟨true, h.2, fun _ => Or.inl rfl⟩
  | literal c =>
    refine ⟨c == '/', h, fun e => Or.inr ?_⟩
    rw [eq_of_beq e]
  | anyChar => exact ⟨false, h, fun e => absurd e (by simp)⟩
  | anyRun => exact ⟨false, h, fun e => absurd e (by simp)⟩
  | within items => exact ⟨false, h, fun e => absurd e (by simp)⟩
  | except items => exact ⟨false, h, fun e => absurd e (by simp)⟩

theorem head_ne_of_placed_false {ts : List Token} (h : Placed false ts) :
    ts.head? ≠ some .anyDepth := by
  intro e
  cases ts with
  | nil => simp at e
  | cons t ts =>
    simp only [List.head?_cons, Option.some.injEq] at e
    subst e
    exact absurd h.1 (by simp)

/-- What the search is right about: a reading is found if there is one, and if the text runs out
there is none further on. -/
structure Reliable (ts : List Token) : Prop where
  full : ∀ s, matchTokens ts s = .full ↔ Denotes ts s
  exhausted : ∀ s, matchTokens ts s = .exhausted → ∀ v, Later ts s v → ¬ Denotes ts v

theorem reliable_nil : Reliable [] where
  full s := by
    rw [denotes_nil_iff]
    cases s <;> simp [matchTokens]
  exhausted s h := by cases s <;> simp [matchTokens] at h

theorem reliable_single {t : Token} {ts : List Token} (ht : t.isSingle = true)
    (hstart : t = .literal '/' ∨ ts.head? ≠ some .anyDepth) (ih : Reliable ts) :
    Reliable (t :: ts) where
  full s := by
    rw [denotes_single_cons ht]
    cases s with
    | nil => simp [matchTokens_single_nil ht]
    | cons c s =>
      rw [matchTokens_single_cons ht]
      by_cases hc : t.fits c = true
      · rw [if_pos hc, ih.full]
        constructor
        · intro h; exact ⟨c, s, rfl, hc, h⟩
        · rintro ⟨_, _, e, _, h⟩
          rw [List.cons.injEq] at e
          exact e.2 ▸ h
      · rw [if_neg hc]
        constructor
        · intro h; simp at h
        · rintro ⟨_, _, e, hc', _⟩
          rw [List.cons.injEq] at e
          exact absurd (e.1 ▸ hc') hc
  exhausted s h v hv := by
    rw [denotes_single_cons ht]
    rintro ⟨c', v', rfl, hc', hv'⟩
    cases s with
    | nil => simpa using hv.1
    | cons c s =>
      rw [matchTokens_single_cons ht] at h
      by_cases hc : t.fits c = true
      · rw [if_pos hc] at h
        have hsuf : v' <:+ s := by
          rcases List.suffix_cons_iff.mp hv.1 with e | hsuf
          · rw [List.cons.injEq] at e
            exact e.2 ▸ List.suffix_refl _
          · exact (List.suffix_cons c' v').trans hsuf
        refine ih.exhausted s h v' ⟨hsuf, fun hd => ?_⟩ hv'
        have hsep : t = .literal '/' := hstart.resolve_right (fun hn => hn hd)
        have hc'' : c' = '/' := by simpa [hsep] using hc'
        subst hc''
        rcases List.suffix_cons_iff.mp hv.1 with e | hsuf'
        · rw [List.cons.injEq] at e
          exact Or.inl e.2
        · exact Or.inr (Or.inr hsuf')
      · rw [if_neg hc] at h
        simp at h

theorem reliable_anyRun {ts : List Token} (hstart : ts.head? ≠ some .anyDepth)
    (ih : Reliable ts) : Reliable (.anyRun :: ts) := by
  have hex : ∀ s, matchTokens (.anyRun :: ts) s = .exhausted →
      ∀ v, v <:+ s → ¬ Denotes (.anyRun :: ts) v := by
    intro s h v hv hd
    rw [matchTokens_anyRun] at h
    obtain ⟨u₀, v₀, rfl, hu₀, hv₀, hmin⟩ := growRun_eq (by simp) h
    obtain ⟨x, y, rfl, hx, hy⟩ := denotes_anyRun_cons.mp hd
    obtain ⟨w, hw⟩ := (List.suffix_append x y).trans hv
    -- either `y` was tried before the text ran out, or it lies in what was left then
    by_cases hlt : w.length < u₀.length
    · have hm := hmin w y hw.symm hlt
      rw [(ih.full y).mpr hy] at hm
      exact absurd hm (by simp)
    · have hsuf : y <:+ v₀ := suffix_of_length_le hw.symm (by omega)
      exact ih.exhausted v₀ hv₀ y ⟨hsuf, fun hd => absurd hd hstart⟩ hy
  refine ⟨fun s => ⟨fun h => ?_, fun h => ?_⟩, fun s h v hv => hex s h v hv.1⟩
  · rw [matchTokens_anyRun] at h
    obtain ⟨u, v, rfl, hu, hv, _⟩ := growRun_eq (by simp) h
    exact .run hu ((ih.full v).mp hv)
  · cases hm : matchTokens (.anyRun :: ts) s with
    | full => rfl
    | exhausted => exact absurd h (hex s hm s (List.suffix_refl s))
    | mismatch =>
      obtain ⟨u, v, rfl, hu, hv⟩ := denotes_anyRun_cons.mp h
      rw [matchTokens_anyRun] at hm
      have := mismatch_of_growRun hm u v rfl hu
      rw [(ih.full v).mpr hv] at this
      exact absurd this (by simp)

/-- A `**` ends at the first place that is no mismatch, or at the last. -/
theorem growDepth_eq {rest : List Char → Outcome} {out : Outcome} {s : List Char} (h : growDepth rest s = out) :
    ∃ u v, s = u ++ v ∧ (u = [] ∨ u.getLast? = some '/' ∨ v = []) ∧ rest v = out ∧
      ∀ u' v', s = u' ++ v' → u' = [] ∨ u'.getLast? = some '/' → u'.length < u.length →
        rest v' = .mismatch := by
  by_cases hm : rest s = .mismatch
  · rw [growDepth, hm] at h
    obtain ⟨u, v, hs, hw, hv, hmin⟩ := scanDepth_eq h
    refine ⟨u, v, hs, Or.inr hw, hv, fun u' v' hs' hu' hlt => ?_⟩
    rcases hu' with rfl | hu'
    · rw [← List.nil_append v', ← hs', hm]
    · exact hmin u' v' hs' hu' hlt
  · refine ⟨[], s, rfl, Or.inl rfl, ?_, by simp⟩
    rw [growDepth] at h
    cases hr : rest s <;> simp_all

theorem mismatch_of_growDepth {rest : List Char → Outcome} {s : List Char}
    (h : growDepth rest s = .mismatch) (u v : List Char) (hs : s = u ++ v)
    (hu : u = [] ∨ u.getLast? = some '/' ∨ v = []) : rest v = .mismatch := by
  have hm : rest s = .mismatch := mismatch_of_grow h
  rcases hu with rfl | hu
  · rw [← List.nil_append v, ← hs, hm]
  · rw [growDepth, hm] at h
    exact mismatch_of_scanDepth h u v hs hu

/-- A start of a component after a stretch that is whole is one of the text before it. -/
theorem startsIn_append {s x y : List Char} (h : StartsIn s (x ++ y))
    (hx : x = [] ∨ x.getLast? = some '/' ∨ y = []) : StartsIn s y := by
  rcases hx with rfl | hx | rfl
  · exact h
  · obtain ⟨w, rfl⟩ := List.getLast?_eq_some_iff.mp hx
    refine Or.inr (Or.inr ?_)
    have : ('/' :: y) <:+ (w ++ ['/']) ++ y := ⟨w, by simp⟩
    exact this.trans (suffix_of_startsIn h)
  · exact Or.inr (Or.inl rfl)

theorem reliable_anyDepth {ts : List Token} (ih : Reliable ts) :
    Reliable (.anyDepth :: ts) := by
  have hex : ∀ s, matchTokens (.anyDepth :: ts) s = .exhausted →
      ∀ v, StartsIn s v → ¬ Denotes (.anyDepth :: ts) v := by
    intro s h v hv hd
    rw [matchTokens_anyDepth] at h
    obtain ⟨u₀, v₀, hs₀, hu₀, hv₀, hmin⟩ := growDepth_eq h
    obtain ⟨x, y, rfl, hx, hy⟩ := denotes_anyDepth_cons.mp hd
    have hstart : StartsIn s y := startsIn_append hv hx
    have hfull : matchTokens ts y = .full := (ih.full y).mpr hy
    obtain ⟨w, hw⟩ := suffix_of_startsIn hstart
    by_cases hlt : w.length < u₀.length
    · -- `y` was tried before the text ran out
      have hwhole : w = [] ∨ w.getLast? = some '/' := by
        rcases hstart with rfl | rfl | ⟨w', hw'⟩
        · exact Or.inl (by simpa using hw)
        · rw [List.append_nil] at hw
          have := congrArg List.length (hw.trans hs₀)
          simp only [List.length_append] at this
          omega
        · have : w = w' ++ ['/'] := by
            have h2 := hw.trans hw'.symm
            rw [← @List.append_cancel_right_eq _ _ y, h2]
            simp
          exact Or.inr (by simp [this])
      have hm := hmin w y hw.symm hwhole hlt
      rw [hfull] at hm
      exact absurd hm (by simp)
    · -- `y` lies in what was left then, again at the start of a component
      have hsuf : y <:+ v₀ := suffix_of_length_le (hs₀.symm.trans hw.symm) (by omega)
      refine ih.exhausted v₀ hv₀ y ⟨hsuf, fun _ => ?_⟩ hy
      rcases hstart with rfl | rfl | hstart
      · have : w = [] := by simpa using hw
        have hu : u₀ = [] := by
          rw [this] at hlt
          exact List.length_eq_zero_iff.mp (by simpa using hlt)
        exact Or.inl (by rw [hs₀, hu]; rfl)
      · exact Or.inr (Or.inl rfl)
      · by_cases he : y = v₀
        · exact Or.inl he
        · refine Or.inr (Or.inr ?_)
          have hlen : y.length < v₀.length := by
            rcases Nat.lt_or_eq_of_le hsuf.length_le with hl | hl
            · exact hl
            · exact absurd (hsuf.eq_of_length hl) he
          exact List.suffix_of_suffix_length_le hstart ⟨u₀, hs₀.symm⟩ (by
            rw [List.length_cons]; omega)
  refine ⟨fun s => ⟨fun h => ?_, fun h => ?_⟩, fun s h v hv => hex s h v (hv.2 rfl)⟩
  · rw [matchTokens_anyDepth] at h
    obtain ⟨u, v, rfl, hu, hv, _⟩ := growDepth_eq h
    exact .depth hu ((ih.full v).mp hv)
  · cases hm : matchTokens (.anyDepth :: ts) s with
    | full => rfl
    | exhausted => exact absurd h (hex s hm s (Or.inl rfl))
    | mismatch =>
      obtain ⟨u, v, rfl, hu, hv⟩ := denotes_anyDepth_cons.mp h
      rw [matchTokens_anyDepth] at hm
      have := mismatch_of_growDepth hm u v rfl hu
      rw [(ih.full v).mpr hv] at this
      exact absurd this (by simp)

theorem reliable : ∀ (ts : List Token) (b : Bool), Placed b ts → Reliable ts := by
  intro ts
  induction ts with
  | nil => intro _ _; exact reliable_nil
  | cons t ts ih =>
    intro b h
    obtain ⟨b', hts, hb'⟩ := placed_tail h
    have hstart : t = .anyDepth ∨ t = .literal '/' ∨ ts.head? ≠ some .anyDepth := by
      cases b' with
      | true => rcases hb' rfl with e | e <;> simp [e]
      | false => exact Or.inr (Or.inr (head_ne_of_placed_false hts))
    by_cases hd : t = .anyDepth
    · subst hd
      exact reliable_anyDepth (ih b' hts)
    · by_cases hr : t = .anyRun
      · subst hr
        exact reliable_anyRun (by simpa using hstart) (ih b' hts)
      · have hs : t.isSingle = true := by cases t <;> simp_all [Token.isSingle]
        exact reliable_single hs (hstart.resolve_left hd) (ih b' hts)

/-- **The search finds a reading whenever there is one.** -/
theorem matchTokens_eq_full_iff {ts : List Token} (h : Placed true ts) (s : List Char) :
    matchTokens ts s = .full ↔ Denotes ts s :=
  (reliable ts true h).full s

theorem Pattern.fits_iff {p : Pattern} (h : Placed true p.tokens) (s : List Char) :
    p.fits s = true ↔ Denotes p.tokens s := by
  rw [Pattern.fits, beq_iff_eq, matchTokens_eq_full_iff h]

end SiteAssist.Glob
