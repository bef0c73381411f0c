import SiteAssist.Proofs.Text.Order
import Mathlib.Data.List.Basic

/-!
# The bytes of a text

A text is stored as the UTF-8 forms of its characters, one after the other (`toList_toUTF8`).  A
character of a greater number has a form that comes later (`encode_lt`), so that to compare texts by their
characters is **to compare them byte by byte** (`ordered_iff_bytes`).
-/

namespace SiteAssist.Text

theorem loop_toList (bs : ByteArray) (i : Nat) (r : List UInt8) :
    ByteArray.toList.loop bs i r = r.reverse ++ bs.data.toList.drop i := by
  fun_induction ByteArray.toList.loop bs i r with
  | case1 i r hi ih =>
    have hlt : i < bs.data.toList.length := hi
    have hget : bs.get! i = bs.data.toList[i] := getElem!_pos bs.data i hi
    rw [ih, List.reverse_cons, List.append_assoc, List.drop_eq_getElem_cons hlt, hget,
      List.singleton_append]
  | case2 i r hi =>
    rw [List.drop_of_length_le (Nat.le_of_not_lt hi), List.append_nil]

/-- The bytes of a text are those of **its characters, one after the other**. -/
theorem toList_toUTF8 (s : String) : s.toUTF8.toList = s.toList.flatMap String.utf8EncodeChar := by
  rw [ByteArray.toList, loop_toList, List.reverse_nil, List.nil_append, List.drop_zero,
    String.toUTF8, ← String.utf8Encode_toList, List.utf8Encode, List.toList_data_toByteArray]

theorem ofNat_lt_iff {m n : Nat} (hm : m < 256) (hn : n < 256) : UInt8.ofNat m < UInt8.ofNat n ↔ m < n := by
  rw [UInt8.lt_iff_toNat_lt, UInt8.toNat_ofNat_of_lt' hm, UInt8.toNat_ofNat_of_lt' hn]

theorem ofNat_eq_iff {m n : Nat} (hm : m < 256) (hn : n < 256) : UInt8.ofNat m = UInt8.ofNat n ↔ m = n := by
  rw [← UInt8.toNat_inj, UInt8.toNat_ofNat_of_lt' hm, UInt8.toNat_ofNat_of_lt' hn]

/-- **A greater character has greater bytes**, whatever follows them. -/
theorem encode_lt {c d : Char} (h : c.toNat < d.toNat) (x y : List UInt8) :
    String.utf8EncodeChar c ++ x < String.utf8EncodeChar d ++ y := by
  have hc : c.val.toNat = c.toNat := rfl
  have hd : d.val.toNat = d.toNat := rfl
  have hmax : d.toNat < 0x110000 := by
    have hvalid := d.valid
    rw [UInt32.isValidChar, Nat.isValidChar, hd] at hvalid
    omega
  simp only [String.utf8EncodeChar, hc, hd]
  generalize c.toNat = m at h
  generalize d.toNat = n at h hmax
  clear hc hd
  -- the digits of a number are cut off it in steps of 64, and nothing is cut off the first
  have hstep : ∀ k < 0x110000, k / 64 / 64 = k / 4096 ∧ k / 4096 / 64 = k / 262144 ∧
      k / 262144 % 8 = k / 262144 := by
    intro k hk
    omega
  have hm := hstep m (Nat.lt_trans h hmax)
  have hn := hstep n hmax
  rw [hm.2.2, hn.2.2]
  clear hstep
  split_ifs
  all_goals try omega
  all_goals
    simp (disch := omega) only [List.cons_append, List.nil_append, List.cons_lt_cons_iff, ofNat_lt_iff,
      ofNat_eq_iff]
    omega

/-- **Texts are in the order of their bytes.** -/
theorem ordered_iff_bytes : ∀ a b : List Char, ordered a b = true ↔
    a.flatMap String.utf8EncodeChar ≤ b.flatMap String.utf8EncodeChar := by
  intro a
  induction a with
  | nil => intro b; simp [ordered]
  | cons c a ih =>
    intro b
    cases b with
    | nil => simp [ordered]
    | cons d b =>
      rw [List.flatMap_cons, List.flatMap_cons]
      rcases Nat.lt_trichotomy c.toNat d.toNat with hlt | heq | hgt
      · have hne : c ≠ d := fun he => Nat.ne_of_lt hlt (by rw [he])
        rw [ordered_cons_of_ne hne]
        exact iff_of_true hlt (List.le_of_lt (encode_lt hlt _ _))
      · obtain rfl := Char.toNat_inj.mp heq
        rw [ordered_cons_self, ih]
        constructor
        · exact List.append_left_le
        · intro hle
          by_contra hnot
          exact absurd (List.append_left_lt (List.not_le.mp hnot)) (List.not_lt.mpr hle)
      · have hne : c ≠ d := fun he => Nat.ne_of_gt hgt (by rw [he])
        rw [ordered_cons_of_ne hne]
        exact iff_of_false (Nat.not_lt.mpr (Nat.le_of_lt hgt)) (List.not_le.mpr (encode_lt hgt _ _))

end SiteAssist.Text
