import Mathlib.Data.List.TakeWhile
import SiteAssist.Json.Reader
import SiteAssist.Proofs.Json.Written
import SiteAssist.Proofs.Outcome

/-!
# Scanning JSON text

The readers of the smallest parts against the texts that these are written as.  Keywords and strings say
themselves where they end, so that a reader succeeds **exactly on such a text**, whatever follows it
(`keyword_eq_ok_iff`, `stringRest_eq_ok_iff`, `skipString_eq_ok_iff`).  A number ends where no more of it
can follow: what is read is a number (`skipNumber_sound`), and a number is read up to its end where a mark,
a blank or nothing follows (`skipNumber_complete`).
-/

namespace SiteAssist.Json

open Reader

variable {c : Char} {s t rest : List Char} {n : Nat}

/-! ## Blanks and keywords -/

theorem isSpace_iff : isSpace c = true ↔ c ∈ [' ', '\n', '\t', '\r'] := by
  simp [isSpace, or_assoc]

theorem spaces_append {u : List Char} (hu : Blank u) : spaces (u ++ s) = spaces s :=
  List.dropWhile_append_of_pos fun c hc => isSpace_iff.mpr (hu c hc)

theorem exists_blank (s : List Char) : ∃ u, Blank u ∧ s = u ++ spaces s :=
  ⟨s.takeWhile isSpace, fun _ hc => isSpace_iff.mp (List.mem_takeWhile_imp hc),
    List.takeWhile_append_dropWhile.symm⟩

theorem spaces_cons (hc : c ∉ [' ', '\n', '\t', '\r']) : spaces (c :: s) = c :: s :=
  List.dropWhile_cons_of_neg fun h => hc (isSpace_iff.mp h)

/-- Behind the blanks stands a character that is none. -/
theorem spaces_eq_cons_iff :
    spaces s = c :: rest ↔ c ∉ [' ', '\n', '\t', '\r'] ∧ ∃ u, Blank u ∧ s = u ++ c :: rest := by
  constructor
  · intro h
    obtain ⟨u, hu, heq⟩ := exists_blank s
    refine ⟨fun hc => ?_, u, hu, h ▸ heq⟩
    have hhead := List.head?_dropWhile_not isSpace s
    rw [show s.dropWhile isSpace = c :: rest from h] at hhead
    simp [isSpace_iff.mpr hc] at hhead
  · rintro ⟨hc, u, hu, rfl⟩
    rw [spaces_append hu, spaces_cons hc]

theorem blank_iff : Blank s ↔ spaces s = [] := by
  simp only [Blank, spaces, List.dropWhile_eq_nil_iff, isSpace_iff]

theorem keyword_eq_ok_iff {ks : List Char} : keyword ks s = .ok rest ↔ s = ks ++ rest := by
  induction ks generalizing s with
  | nil => simp [keyword]
  | cons k ks ih =>
    cases s with
    | nil => simp [keyword]
    | cons c s =>
      rw [keyword]
      split
      · next h => rw [ih, h, List.cons_append, List.cons_inj_right]
      · next h => simp [Ne.symm h]

/-! ## Strings -/

theorem letterEscape?_eq_some_iff {e : Char} : letterEscape? e = some c ↔ (e, c) ∈ letters := by
  unfold letterEscape?
  split <;> simp_all [letters, eq_comm]

theorem fourHex_eq_ok_iff : fourHex s = .ok (n, rest) ↔ ∃ t, FourHex n t ∧ s = t ++ rest := by
  constructor
  · intro h
    rw [fourHex.eq_def] at h
    split at h
    · split at h
      · next i j k l hi hj hk hl =>
        cases h
        exact ⟨[_, _, _, _], ⟨i, j, k, l, _, _, _, _, Uri.isHexDigit_of_hexValue? hi,
          Uri.isHexDigit_of_hexValue? hj, Uri.isHexDigit_of_hexValue? hk,
          Uri.isHexDigit_of_hexValue? hl, rfl, rfl⟩, rfl⟩
      · cases h
    · split at h <;> cases h
  · rintro ⟨_, ⟨i, j, k, l, a, b, c, d, ha, hb, hc, hd, rfl, rfl⟩, rfl⟩
    simp [fourHex, Uri.hexValue?_of_isHexDigit ha, Uri.hexValue?_of_isHexDigit hb,
      Uri.hexValue?_of_isHexDigit hc, Uri.hexValue?_of_isHexDigit hd]

theorem FourHex.lt (h : FourHex n s) : n < 0x10000 := by
  obtain ⟨i, j, k, l, a, b, c, d, ha, hb, hc, hd, rfl, -⟩ := h
  have hi := ha.lt
  have hj := hb.lt
  have hk := hc.lt
  have hl := hd.lt
  omega

theorem toNat_ofNat (h : n.isValidChar) : (Char.ofNat n).toNat = n := by
  unfold Char.ofNat
  rw [dif_pos h]
  rfl

/-- A number that is no surrogate's is the character's own. -/
theorem numberEscape_of_one (hs : fourHex s = .ok (n, rest)) (hn : n < 0xD800 ∨ 0xDFFF < n) :
    numberEscape s = .ok (Char.ofNat n, rest) := by
  rw [numberEscape, hs]
  change (if _ then _ else if _ then _ else _) = _
  rw [if_neg (by omega), if_pos (by omega)]

/-- The numbers of two surrogates are put together. -/
theorem numberEscape_of_pair {high low : Nat} (hs : fourHex s = .ok (high, '\\' :: 'u' :: t))
    (ht : fourHex t = .ok (low, rest)) (hhigh : 0xD800 ≤ high ∧ high ≤ 0xDBFF)
    (hlow : 0xDC00 ≤ low ∧ low ≤ 0xDFFF) :
    numberEscape s = .ok (Char.ofNat (0x10000 + (high - 0xD800) * 0x400 + (low - 0xDC00)), rest) := by
  rw [numberEscape, hs]
  change (if _ then _ else if _ then _ else fourHex t >>= _) = _
  rw [if_neg (by omega), if_neg (by omega), ht]
  exact if_neg (by omega)

theorem numberEscape_eq_ok_iff : numberEscape s = .ok (c, rest) ↔ ∃ t, Numbered c t ∧ s = t ++ rest := by
  constructor
  · intro h
    rw [numberEscape] at h
    obtain ⟨⟨n, r⟩, hread, hnumber⟩ := bind_eq_ok_iff.mp h
    obtain ⟨t, ht, rfl⟩ := fourHex_eq_ok_iff.mp hread
    have hn := ht.lt
    dsimp only at hnumber
    split at hnumber
    · cases hnumber
    · split at hnumber
      · cases hnumber
        have hvalid : n.isValidChar := by
          unfold Nat.isValidChar
          omega
        exact ⟨t, .one ((toNat_ofNat hvalid).symm ▸ ht), rfl⟩
      · split at hnumber <;> try cases hnumber
        obtain ⟨⟨low, r⟩, hread, hlow⟩ := bind_eq_ok_iff.mp hnumber
        obtain ⟨v, hv, rfl⟩ := fourHex_eq_ok_iff.mp hread
        dsimp only at hlow
        split at hlow
        · cases hlow
        · have hvalid : (0x10000 + (n - 0xD800) * 0x400 + (low - 0xDC00)).isValidChar := by
            unfold Nat.isValidChar
            omega
          simp only [Except.ok.injEq, Prod.mk.injEq] at hlow
          obtain ⟨rfl, rfl⟩ := hlow
          exact ⟨t ++ '\\' :: 'u' :: v, .pair ht hv (by omega) (by omega) (toNat_ofNat hvalid), by simp⟩
  · rintro ⟨t, ht, rfl⟩
    rw [← Char.ofNat_toNat c]
    cases ht with
    | one digits =>
      refine numberEscape_of_one (fourHex_eq_ok_iff.mpr ⟨t, digits, rfl⟩) ?_
      exact c.valid.imp id And.left
    | pair hs ht hhigh hlow hc =>
      rw [hc]
      exact numberEscape_of_pair (fourHex_eq_ok_iff.mpr ⟨_, hs, by simp⟩)
        (fourHex_eq_ok_iff.mpr ⟨_, ht, rfl⟩) hhigh hlow

/-! ### Between quotes -/

/-- What is no quote, no escape and no control character is plain. -/
theorem plain_of_not (hquote : c = '"' → False) (hend : c = '\\' → s = [] → False)
    (hescape : ∀ e t, c = '\\' → s = e :: t → False) (hlow : ¬c.toNat < 0x20) : Plain c := by
  refine ⟨hquote, fun hc => ?_, Nat.le_of_not_lt hlow⟩
  cases s with
  | nil => exact hend hc rfl
  | cons e t => exact hescape e t hc rfl

theorem stringBody_sound {fuel : Nat} {cs : List Char} (h : stringBody fuel s = .ok (cs, rest)) :
    ∃ body, Spells cs body ∧ s = body ++ '"' :: rest := by
  fun_induction stringBody fuel s generalizing cs rest with
  | case1 | case2 | case4 | case7 | case8 => cases h
  | case3 =>
    cases h
    exact ⟨[], .nil, rfl⟩
  | case5 fuel s ih =>
    obtain ⟨⟨c, r⟩, hc, h⟩ := bind_eq_ok_iff.mp h
    obtain ⟨⟨cs, r'⟩, hcs, heq⟩ := bind_eq_ok_iff.mp h
    cases heq
    obtain ⟨t, ht, rfl⟩ := numberEscape_eq_ok_iff.mp hc
    obtain ⟨body, hbody, rfl⟩ := ih r hcs
    exact ⟨_, .number ht hbody, by simp⟩
  | case6 fuel e s _ c hc ih =>
    obtain ⟨⟨cs, r⟩, hcs, heq⟩ := bind_eq_ok_iff.mp h
    cases heq
    obtain ⟨body, hbody, rfl⟩ := ih hcs
    exact ⟨_, .letter (letterEscape?_eq_some_iff.mp hc) hbody, rfl⟩
  | case9 fuel c s hquote hend _ hescape hlow ih =>
    obtain ⟨⟨cs, r⟩, hcs, heq⟩ := bind_eq_ok_iff.mp h
    cases heq
    obtain ⟨body, hbody, rfl⟩ := ih hcs
    exact ⟨_, .plain (plain_of_not hquote hend hescape hlow) hbody, rfl⟩

theorem stringBody_complete {cs body : List Char} (h : Spells cs body) {fuel : Nat}
    (hfuel : body.length < fuel) : stringBody fuel (body ++ '"' :: rest) = .ok (cs, rest) := by
  induction h generalizing fuel with
  | nil =>
    obtain ⟨fuel, rfl⟩ := Nat.exists_eq_add_of_lt hfuel
    rfl
  | plain hc _ ih =>
    obtain ⟨fuel, rfl⟩ : ∃ k, fuel = k + 1 := Nat.exists_eq_succ_of_ne_zero (by omega)
    rw [List.cons_append, stringBody, if_neg (Nat.not_lt.mpr hc.2.2), ih (Nat.lt_of_succ_lt_succ hfuel)]
    · rfl
    · exact hc.1
    · exact fun h => absurd h hc.2.1
    · exact fun _ h => absurd h hc.2.1
    · exact fun _ _ h => absurd h hc.2.1
  | letter he _ ih =>
    obtain ⟨fuel, rfl⟩ : ∃ k, fuel = k + 1 := Nat.exists_eq_succ_of_ne_zero (by omega)
    rw [List.cons_append, List.cons_append, stringBody, letterEscape?_eq_some_iff.mpr he, ih (by grind)]
    · rfl
    · rintro rfl
      simp [letters] at he
  | number ht _ ih =>
    obtain ⟨fuel, rfl⟩ : ∃ k, fuel = k + 1 := Nat.exists_eq_succ_of_ne_zero (by omega)
    rw [List.cons_append, List.cons_append, stringBody, List.append_assoc,
      numberEscape_eq_ok_iff.mpr ⟨_, ht, rfl⟩]
    change (stringBody fuel _ >>= _) = _
    rw [ih (by grind)]
    rfl

theorem stringRest_eq_ok_iff {value : String} :
    stringRest s = .ok (value, rest) ↔ ∃ body, Spells value.toList body ∧ s = body ++ '"' :: rest := by
  rw [stringRest, map_eq_ok_iff]
  constructor
  · rintro ⟨⟨cs, r⟩, hread, heq⟩
    cases heq
    rw [String.toList_ofList]
    exact stringBody_sound hread
  · rintro ⟨body, hbody, rfl⟩
    refine ⟨(value.toList, rest), stringBody_complete hbody ?_, by simp⟩
    rw [List.length_append]
    omega

theorem skipString_sound {fuel : Nat} (h : skipString fuel s = .ok rest) :
    ∃ body, Loose body ∧ s = body ++ '"' :: rest := by
  fun_induction skipString fuel s with
  | case1 | case2 | case4 | case7 | case8 => cases h
  | case3 =>
    cases h
    exact ⟨[], .nil, rfl⟩
  | case5 fuel s ih =>
    obtain ⟨⟨n, r⟩, hn, hskip⟩ := bind_eq_ok_iff.mp h
    obtain ⟨t, ht, rfl⟩ := fourHex_eq_ok_iff.mp hn
    obtain ⟨body, hbody, rfl⟩ := ih r hskip
    exact ⟨_, .number ht hbody, by simp⟩
  | case6 fuel e s _ he ih =>
    obtain ⟨c, hc⟩ := Option.isSome_iff_exists.mp he
    obtain ⟨body, hbody, rfl⟩ := ih h
    exact ⟨_, .letter (letterEscape?_eq_some_iff.mp hc) hbody, rfl⟩
  | case9 fuel c s hquote hend _ hescape hlow ih =>
    obtain ⟨body, hbody, rfl⟩ := ih h
    exact ⟨_, .plain (plain_of_not hquote hend hescape hlow) hbody, rfl⟩

theorem skipString_complete {body : List Char} (h : Loose body) {fuel : Nat}
    (hfuel : body.length < fuel) : skipString fuel (body ++ '"' :: rest) = .ok rest := by
  induction h generalizing fuel with
  | nil =>
    obtain ⟨fuel, rfl⟩ := Nat.exists_eq_add_of_lt hfuel
    rfl
  | plain hc _ ih =>
    obtain ⟨fuel, rfl⟩ : ∃ k, fuel = k + 1 := Nat.exists_eq_succ_of_ne_zero (by omega)
    rw [List.cons_append, skipString, if_neg (Nat.not_lt.mpr hc.2.2), ih (Nat.lt_of_succ_lt_succ hfuel)]
    · exact hc.1
    · exact fun h => absurd h hc.2.1
    · exact fun _ h => absurd h hc.2.1
    · exact fun _ _ h => absurd h hc.2.1
  | letter he _ ih =>
    obtain ⟨fuel, rfl⟩ : ∃ k, fuel = k + 1 := Nat.exists_eq_succ_of_ne_zero (by omega)
    rw [List.cons_append, List.cons_append, skipString, letterEscape?_eq_some_iff.mpr he]
    · exact ih (by grind)
    · rintro rfl
      simp [letters] at he
  | number ht _ ih =>
    obtain ⟨fuel, rfl⟩ : ∃ k, fuel = k + 1 := Nat.exists_eq_succ_of_ne_zero (by omega)
    rw [List.cons_append, List.cons_append, skipString, List.append_assoc,
      fourHex_eq_ok_iff.mpr ⟨_, ht, rfl⟩]
    exact ih (by grind)

theorem skipString_eq_ok_iff :
    skipString (s.length + 1) s = .ok rest ↔ ∃ body, Loose body ∧ s = body ++ '"' :: rest := by
  refine ⟨skipString_sound, ?_⟩
  rintro ⟨body, hbody, rfl⟩
  refine skipString_complete hbody ?_
  rw [List.length_append]
  omega

/-! ## Numbers -/

/-- No digit stands at the start. -/
def DigitFree (s : List Char) : Prop := s.head?.any Char.isDigit = false

theorem Ends.digitFree (h : Ends s) : DigitFree s := by
  cases s with
  | nil => rfl
  | cons c s =>
    have hall : ∀ d ∈ [' ', '\n', '\t', '\r', ',', ']', '\x7d'], d.isDigit = false := by simp
    exact hall c (h c rfl)

theorem skipDigits_cons (hc : c.isDigit = true) : skipDigits (c :: s) = .ok (s.dropWhile Char.isDigit) :=
  (if_pos hc).trans (congrArg Except.ok (List.dropWhile_cons_of_pos hc))

/-- Digits are passed over up to where none follows. -/
theorem skipDigits_complete {ds : List Char} (hds : Digits ds) (hrest : DigitFree rest) :
    skipDigits (ds ++ rest) = .ok rest := by
  have hdrop : rest.dropWhile Char.isDigit = rest := by
    cases rest with
    | nil => rfl
    | cons c s => exact List.dropWhile_cons_of_neg (by simpa [DigitFree] using hrest)
  obtain ⟨c, cs, rfl⟩ := List.exists_cons_of_ne_nil hds.1
  obtain ⟨hc, hcs⟩ := List.forall_mem_cons.mp hds.2
  rw [List.cons_append, skipDigits_cons hc, List.dropWhile_append_of_pos hcs, hdrop]

theorem skipDigits_sound (h : skipDigits s = .ok rest) : ∃ ds, Digits ds ∧ s = ds ++ rest := by
  rw [skipDigits] at h
  split at h
  · next hdigit =>
    cases h
    refine ⟨s.takeWhile Char.isDigit, ⟨?_, fun _ hc => List.mem_takeWhile_imp hc⟩,
      List.takeWhile_append_dropWhile.symm⟩
    cases s with
    | nil => simp at hdigit
    | cons c s => simp [List.takeWhile_cons_of_pos (show c.isDigit = true from hdigit)]
  · cases h

theorem skipExponent_sound {e : Char} (he : e ∈ ['e', 'E']) (h : skipExponent s = .ok rest) :
    ∃ t, ExponentPart t ∧ e :: s = t ++ rest := by
  have hread (sign : List Char) {s : List Char} (hsign : sign ∈ [[], ['+'], ['-']])
      (h : skipDigits s = .ok rest) : ∃ t, ExponentPart t ∧ e :: (sign ++ s) = t ++ rest := by
    obtain ⟨ds, hds, rfl⟩ := skipDigits_sound h
    exact ⟨e :: (sign ++ ds), Or.inr ⟨e, he, sign, hsign, ds, hds, rfl⟩, by simp⟩
  unfold skipExponent at h
  split at h
  · exact hread ['+'] (by simp) h
  · exact hread ['-'] (by simp) h
  · exact hread [] (by simp) h

theorem skipExponent_complete {sign ds : List Char} (hsign : sign ∈ [[], ['+'], ['-']]) (hds : Digits ds)
    (hrest : DigitFree rest) : skipExponent (sign ++ (ds ++ rest)) = .ok rest := by
  have hskip := skipDigits_complete hds hrest
  rcases hsign with _ | ⟨_, _ | ⟨_, _ | ⟨_, h⟩⟩⟩
  · obtain ⟨c, cs, rfl⟩ := List.exists_cons_of_ne_nil hds.1
    have hc := hds.2 c List.mem_cons_self
    unfold skipExponent
    split
    · next heq =>
      cases heq
      exact absurd hc (by decide)
    · next heq =>
      cases heq
      exact absurd hc (by decide)
    · exact hskip
  · exact hskip
  · exact hskip
  · cases h

theorem skipScale_sound (h : skipScale s = .ok rest) : ∃ t, ExponentPart t ∧ s = t ++ rest := by
  unfold skipScale at h
  split at h
  · exact skipExponent_sound (by simp) h
  · exact skipExponent_sound (by simp) h
  · cases h
    exact ⟨[], Or.inl rfl, rfl⟩

theorem skipScale_complete (ht : ExponentPart t) (hrest : Ends rest) : skipScale (t ++ rest) = .ok rest := by
  rcases ht with rfl | ⟨e, he, sign, hsign, ds, hds, rfl⟩
  · rw [List.nil_append]
    unfold skipScale
    split
    · exact absurd (hrest 'e' rfl) (by decide)
    · exact absurd (hrest 'E' rfl) (by decide)
    · rfl
  · have hread := skipExponent_complete hsign hds hrest.digitFree
    rw [List.cons_append, List.append_assoc]
    rcases he with _ | ⟨_, _ | ⟨_, h⟩⟩
    · exact hread
    · exact hread
    · cases h

theorem skipWhole_sound (h : skipWhole s = .ok rest) : ∃ t, WholePart t ∧ s = t ++ rest := by
  unfold skipWhole at h
  split at h
  · cases h
  · split at h
    · cases h
    · cases h
      exact ⟨['0'], Or.inl rfl, rfl⟩
  · next c s hzero =>
    split at h
    · next hc =>
      obtain ⟨ds, hds, heq⟩ := skipDigits_sound ((skipDigits_cons hc).trans h)
      refine ⟨ds, Or.inr ⟨hds, fun hhead => hzero ?_⟩, heq⟩
      obtain ⟨d, ds, rfl⟩ := List.exists_cons_of_ne_nil hds.1
      exact (List.cons.inj heq).1.trans (Option.some.inj hhead)
    · cases h

theorem skipWhole_complete (ht : WholePart t) (hrest : DigitFree rest) : skipWhole (t ++ rest) = .ok rest := by
  rcases ht with rfl | ⟨hds, hzero⟩
  · exact if_neg (Bool.eq_false_iff.mp hrest)
  · have hskip := skipDigits_complete hds hrest
    obtain ⟨c, cs, rfl⟩ := List.exists_cons_of_ne_nil hds.1
    have hc := hds.2 c List.mem_cons_self
    rw [List.cons_append, skipWhole, if_pos hc]
    · exact (skipDigits_cons hc).symm.trans hskip
    · exact fun h => hzero (congrArg some h)

theorem skipUnsigned_sound (h : skipUnsigned s = .ok rest) : ∃ whole fraction exponent, WholePart whole ∧
    FractionPart fraction ∧ ExponentPart exponent ∧ s = whole ++ (fraction ++ exponent) ++ rest := by
  rw [skipUnsigned] at h
  obtain ⟨r, hwhole, hscale⟩ := bind_eq_ok_iff.mp h
  obtain ⟨whole, hw, rfl⟩ := skipWhole_sound hwhole
  split at hscale
  · obtain ⟨r, hdigits, hexp⟩ := bind_eq_ok_iff.mp hscale
    obtain ⟨ds, hds, rfl⟩ := skipDigits_sound hdigits
    obtain ⟨exponent, hexponent, rfl⟩ := skipScale_sound hexp
    exact ⟨whole, '.' :: ds, exponent, hw, Or.inr ⟨ds, hds, rfl⟩, hexponent, by simp⟩
  · obtain ⟨exponent, hexponent, rfl⟩ := skipScale_sound hscale
    exact ⟨whole, [], exponent, hw, Or.inl rfl, hexponent, by simp⟩

/-- What starts behind the point of a number, or where it would be. -/
theorem ExponentPart.mem_head? (ht : ExponentPart t) (hrest : Ends rest) (hc : c ∈ (t ++ rest).head?) :
    c ∈ ['e', 'E', ' ', '\n', '\t', '\r', ',', ']', '\x7d'] := by
  rcases ht with rfl | ⟨e, he, sign, -, ds, -, rfl⟩
  · exact List.mem_cons_of_mem _ (List.mem_cons_of_mem _ (hrest c hc))
  · cases hc
    exact List.mem_append_left _ he

theorem ExponentPart.digitFree (ht : ExponentPart t) (hrest : Ends rest) : DigitFree (t ++ rest) := by
  have hall : ∀ d ∈ ['e', 'E', ' ', '\n', '\t', '\r', ',', ']', '\x7d'], d.isDigit = false := by simp
  have hhead (c : Char) (hc : c ∈ (t ++ rest).head?) : c.isDigit = false := hall c (ht.mem_head? hrest hc)
  rw [DigitFree]
  cases heq : (t ++ rest).head? with
  | none => rfl
  | some c => exact hhead c heq

theorem WholePart.exists_cons (h : WholePart s) : ∃ c t, s = c :: t ∧ c.isDigit = true := by
  rcases h with rfl | ⟨hds, -⟩
  · exact ⟨'0', [], rfl, rfl⟩
  · obtain ⟨c, cs, rfl⟩ := List.exists_cons_of_ne_nil hds.1
    exact ⟨c, cs, rfl, hds.2 c List.mem_cons_self⟩

theorem skipUnsigned_complete {whole fraction exponent : List Char} (hwhole : WholePart whole)
    (hfraction : FractionPart fraction) (hexponent : ExponentPart exponent) (hrest : Ends rest) :
    skipUnsigned (whole ++ (fraction ++ exponent) ++ rest) = .ok rest := by
  have hfree := hexponent.digitFree hrest
  have hscale := skipScale_complete hexponent hrest
  rcases hfraction with rfl | ⟨ds, hds, rfl⟩
  · rw [List.nil_append, List.append_assoc, skipUnsigned, skipWhole_complete hwhole hfree]
    simp only [bind, Except.bind]
    split
    · next heq =>
      exact absurd (hexponent.mem_head? hrest (congrArg List.head? heq)) (by decide)
    · exact hscale
  · have hpoint : DigitFree ('.' :: ds ++ exponent ++ rest) := rfl
    rw [List.append_assoc, skipUnsigned, skipWhole_complete hwhole hpoint, List.append_assoc]
    change (skipDigits (ds ++ (exponent ++ rest)) >>= skipScale) = _
    rw [skipDigits_complete hds hfree]
    exact hscale

theorem skipNumber_sound (h : skipNumber s = .ok rest) : ∃ t, NumberText t ∧ s = t ++ rest := by
  unfold skipNumber at h
  split at h
  · obtain ⟨whole, fraction, exponent, hw, hf, he, rfl⟩ := skipUnsigned_sound h
    exact ⟨'-' :: (whole ++ (fraction ++ exponent)),
      ⟨['-'], by simp, whole, fraction, exponent, hw, hf, he, rfl⟩, rfl⟩
  · obtain ⟨whole, fraction, exponent, hw, hf, he, rfl⟩ := skipUnsigned_sound h
    exact ⟨whole ++ (fraction ++ exponent), ⟨[], by simp, whole, fraction, exponent, hw, hf, he, rfl⟩, rfl⟩

theorem skipNumber_complete (ht : NumberText t) (hrest : Ends rest) : skipNumber (t ++ rest) = .ok rest := by
  obtain ⟨sign, hsign, whole, fraction, exponent, hw, hf, he, rfl⟩ := ht
  have hread := skipUnsigned_complete hw hf he hrest
  rcases hsign with _ | ⟨_, _ | ⟨_, h⟩⟩
  · obtain ⟨c, w, rfl, hc⟩ := hw.exists_cons
    rw [List.nil_append, List.cons_append, List.cons_append, skipNumber]
    · exact hread
    · intro t heq
      exact absurd ((List.cons.inj heq).1 ▸ hc) (by decide)
  · exact hread
  · cases h

end SiteAssist.Json
