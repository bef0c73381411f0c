import SiteAssist.Uri
import SiteAssist.Proofs.FileTree.Change
import SiteAssist.Proofs.Text.Bytes
import SiteAssist.Proofs.Text.Search

/-!
# The encodings of a path

A client may write the path in a file URI in many ways: each character stands as itself or as the
percent triples of its bytes, with digits of either case (`Encodes`).  Only the percent sign may not
stand as itself.

* `toPath?_of_encodes`: **every encoding of a path is read as the path**.
* `encodes_written`: what is written for a path is one of its encodings.

So no two paths are written alike, and what is written needs few characters (`IsWritten`).
-/

namespace SiteAssist.Uri

open Text (hexValue?)

/-! ## Encodings -/

/-- A hexadecimal digit of a number, in upper or lower case. -/
def IsHexDigit (n : Nat) (c : Char) : Prop :=
  "0123456789ABCDEF".toList[n]? = some c ∨ "0123456789abcdef".toList[n]? = some c

instance (n : Nat) (c : Char) : Decidable (IsHexDigit n c) := inferInstanceAs (Decidable (_ ∨ _))

/-- Bytes written as percent triples, one after the other. -/
inductive Triples : List UInt8 → List Char → Prop
  | nil : Triples [] []
  | cons {b : UInt8} {bs : List UInt8} {x y : Char} {t : List Char} :
      IsHexDigit (b.toNat / 16) x → IsHexDigit (b.toNat % 16) y → Triples bs t →
      Triples (b :: bs) ('%' :: x :: y :: t)

/-- An encoding of a text: any of its characters, and every percent sign, as the triples of
their bytes. -/
inductive Encodes : List Char → List Char → Prop
  | nil : Encodes [] []
  | plain {c : Char} {s t : List Char} : c ≠ '%' → Encodes s t → Encodes (c :: s) (c :: t)
  | triples {c : Char} {s e t : List Char} :
      Triples (String.utf8EncodeChar c) e → Encodes s t → Encodes (c :: s) (e ++ t)

theorem Triples.append {bs cs : List UInt8} {t u : List Char} (h : Triples bs t)
    (h' : Triples cs u) : Triples (bs ++ cs) (t ++ u) := by
  induction h with
  | nil => exact h'
  | cons hx hy _ ih => exact .cons hx hy ih

theorem Encodes.append {s t u v : List Char} (h : Encodes s t) (h' : Encodes u v) :
    Encodes (s ++ u) (t ++ v) := by
  induction h with
  | nil => exact h'
  | plain hc _ ih => exact .plain hc ih
  | triples he _ ih =>
    rw [List.append_assoc]
    exact .triples he ih

/-! ## Reading -/

theorem toList_toUTF8_toString (c : Char) :
    c.toString.toUTF8.toList = String.utf8EncodeChar c := by
  rw [Text.toList_toUTF8, Char.toString, String.toList_singleton, List.flatMap_singleton]

theorem hexValue?_of_isHexDigit {n : Nat} {c : Char} (h : IsHexDigit n c) : hexValue? c = some n := by
  have hupper : ∀ n < 16, ("0123456789ABCDEF".toList[n]?).bind hexValue? = some n := by decide
  have hlower : ∀ n < 16, ("0123456789abcdef".toList[n]?).bind hexValue? = some n := by decide
  rcases h with h | h
  · have hread := hupper n (List.getElem?_eq_some_iff.mp h).1
    rwa [h, Option.bind_some] at hread
  · have hread := hlower n (List.getElem?_eq_some_iff.mp h).1
    rwa [h, Option.bind_some] at hread

theorem IsHexDigit.lt {n : Nat} {c : Char} (h : IsHexDigit n c) : n < 16 := by
  rcases h with h | h <;> exact (List.getElem?_eq_some_iff.mp h).1

theorem isHexDigit_of_hexValue? {n : Nat} {c : Char} (h : hexValue? c = some n) : IsHexDigit n c := by
  have hall : ∀ k < 128, ∀ n < 16, hexValue? (Char.ofNat k) = some n → IsHexDigit n (Char.ofNat k) := by
    decide +kernel
  have hlt : c.toNat < 128 ∧ n < 16 := by
    rw [hexValue?] at h
    simp only [Char.le_def, UInt32.le_iff_toNat_le, Char.toNat_val] at h
    grind
  rw [← Char.ofNat_toNat c] at h ⊢
  exact hall _ hlt.1 _ hlt.2 h

/-- A triple is read as the byte that it is of. -/
theorem decodeBytes_triple {b : UInt8} {x y : Char} (hx : IsHexDigit (b.toNat / 16) x)
    (hy : IsHexDigit (b.toNat % 16) y) (t : List Char) :
    decodeBytes ('%' :: x :: y :: t) = b :: decodeBytes t := by
  have hb : 16 * (b.toNat / 16) + b.toNat % 16 = b.toNat := Nat.div_add_mod b.toNat 16
  rw [decodeBytes, hexValue?_of_isHexDigit hx, hexValue?_of_isHexDigit hy]
  simp only [hb, UInt8.ofNat_toNat]

theorem decodeBytes_plain {c : Char} (hc : c ≠ '%') (t : List Char) :
    decodeBytes (c :: t) = String.utf8EncodeChar c ++ decodeBytes t := by
  rw [decodeBytes, toList_toUTF8_toString]
  exact fun a b rest h => absurd h hc

theorem decodeBytes_triples {bs : List UInt8} {e : List Char} (h : Triples bs e) (t : List Char) :
    decodeBytes (e ++ t) = bs ++ decodeBytes t := by
  induction h with
  | nil => rfl
  | cons hx hy _ ih =>
    rw [List.cons_append, List.cons_append, List.cons_append, decodeBytes_triple hx hy, ih,
      List.cons_append]

/-- An encoding is read as the bytes of the text. -/
theorem decodeBytes_of_encodes {s t : List Char} (h : Encodes s t) :
    decodeBytes t = s.flatMap String.utf8EncodeChar := by
  induction h with
  | nil => rfl
  | plain hc _ ih => rw [decodeBytes_plain hc, ih, List.flatMap_cons]
  | triples he _ ih => rw [decodeBytes_triples he, ih, List.flatMap_cons]

/-- **Every encoding of a path is read as the path.** -/
theorem toPath?_of_encodes {p : Path} {t : String} (h : Encodes p.text.toList t.toList) :
    toPath? ("file://" ++ t) = some p := by
  have hbytes : (⟨(decodeBytes t.toList).toArray⟩ : ByteArray) = p.text.toUTF8 := by
    refine ByteArray.ext (Array.toList_inj.mp ?_)
    rw [decodeBytes_of_encodes h, String.toUTF8, ← String.utf8Encode_toList, List.utf8Encode,
      List.toList_data_toByteArray]
  have hstrip : Text.stripPrefix? scheme ("file://" ++ t).toList = some t.toList := by
    rw [String.toList_append]
    exact Text.stripPrefix?_append scheme t.toList
  rw [toPath?, hstrip, Option.bind_some, hbytes, FileTree.fromUTF8?_toUTF8]
  rfl

/-! ## Writing -/

theorem isHexDigit_upperHex {n : Nat} (h : n < 16) :
    IsHexDigit n (upperHex n) ∧ (upperHex n).isAlphanum = true := by
  have hall : ∀ n < 16, IsHexDigit n (upperHex n) ∧ (upperHex n).isAlphanum = true := by decide
  exact hall n h

theorem lt_of_isUnreserved {b : UInt8} (h : isUnreserved b = true) : b.toNat < 128 := by
  have hall : ∀ n < 256, isUnreserved (UInt8.ofNat n) = true → n < 128 := by decide +kernel
  exact hall b.toNat b.toNat_lt (by rwa [UInt8.ofNat_toNat])

theorem utf8EncodeChar_of_lt {c : Char} (h : c.toNat < 128) :
    String.utf8EncodeChar c = [UInt8.ofNat c.toNat] := by
  have hle : c.val.toNat ≤ 127 := Nat.le_of_lt_succ h
  rw [String.utf8EncodeChar]
  simp only [hle, if_true]
  rfl

/-- The bytes of a character beyond ASCII lie beyond ASCII themselves. -/
theorem le_of_mem_utf8EncodeChar {c : Char} (h : ¬c.toNat < 128) {b : UInt8}
    (hb : b ∈ String.utf8EncodeChar c) : 128 ≤ b.toNat := by
  have hle : ¬c.val.toNat ≤ 127 := fun hle => h (Nat.lt_succ_of_le hle)
  rw [String.utf8EncodeChar] at hb
  simp only [hle, if_false] at hb
  split at hb
  all_goals try split at hb
  all_goals
    simp only [List.mem_cons, List.not_mem_nil, or_false] at hb
    rcases hb with rfl | rfl | rfl | rfl <;> simp only [UInt8.toNat_ofNat'] <;> omega

theorem triples_of_reserved {bs : List UInt8} (h : ∀ b ∈ bs, isUnreserved b = false) :
    Triples bs (bs.flatMap encodeByte) := by
  induction bs with
  | nil => exact .nil
  | cons b bs ih =>
    have hb := b.toNat_lt
    have hhigh := (isHexDigit_upperHex (n := b.toNat / 16) (by omega)).1
    have hlow := (isHexDigit_upperHex (n := b.toNat % 16) (by omega)).1
    rw [List.flatMap_cons, encodeByte, if_neg (by simp [h b List.mem_cons_self])]
    exact .cons hhigh hlow (ih fun x hx => h x (List.mem_cons_of_mem b hx))

/-- A character is written as itself or as triples. -/
theorem encodes_singleton (c : Char) :
    Encodes [c] ((String.utf8EncodeChar c).flatMap encodeByte) := by
  have hreserved : (∀ b ∈ String.utf8EncodeChar c, isUnreserved b = false) →
      Encodes [c] ((String.utf8EncodeChar c).flatMap encodeByte) := fun h => by
    have := Encodes.triples (triples_of_reserved h) .nil
    rwa [List.append_nil] at this
  by_cases hc : c.toNat < 128
  · have hbyte : (UInt8.ofNat c.toNat).toNat = c.toNat := UInt8.toNat_ofNat_of_lt' (show c.toNat < 256 by omega)
    cases hu : isUnreserved (UInt8.ofNat c.toNat) with
    | true =>
      have hpercent : c ≠ '%' := by
        rintro rfl
        exact absurd hu (by decide)
      rw [utf8EncodeChar_of_lt hc, List.flatMap_singleton, encodeByte, if_pos hu, hbyte,
        Char.ofNat_toNat]
      exact .plain hpercent .nil
    | false =>
      refine hreserved fun b hb => ?_
      rw [utf8EncodeChar_of_lt hc, List.mem_singleton] at hb
      rwa [hb]
  · refine hreserved fun b hb => ?_
    rw [Bool.eq_false_iff]
    intro hu
    have := lt_of_isUnreserved hu
    have := le_of_mem_utf8EncodeChar hc hb
    omega

theorem encodeSegment_eq (s : List Char) :
    encodeSegment s = s.flatMap fun c => (String.utf8EncodeChar c).flatMap encodeByte := by
  rw [encodeSegment, Text.toList_toUTF8, String.toList_ofList, List.flatMap_assoc]

theorem encodes_encodeSegment (s : List Char) : Encodes s (encodeSegment s) := by
  rw [encodeSegment_eq]
  induction s with
  | nil => exact .nil
  | cons c s ih => exact (encodes_singleton c).append ih

theorem encodes_intercalate (ps : List (List Char)) :
    Encodes (List.intercalate ['/'] ps) (List.intercalate ['/'] (ps.map encodeSegment)) := by
  induction ps with
  | nil => exact .nil
  | cons p ps ih =>
    by_cases hp : ps = []
    · rw [hp, List.map_singleton, List.intercalate_singleton, List.intercalate_singleton]
      exact encodes_encodeSegment p
    · have hslash : Encodes ['/'] ['/'] := .plain (by decide) .nil
      rw [List.intercalate_cons_of_ne_nil hp, List.map_cons, List.intercalate_cons_of_ne_nil (by simpa using hp)]
      exact ((encodes_encodeSegment p).append hslash).append ih

/-- What is written for a path, after the scheme. -/
def written (p : Path) : String :=
  String.ofList (List.intercalate ['/'] ((p.text.toList.splitOn '/').map encodeSegment))

theorem ofPath_eq (p : Path) : ofPath p = "file://" ++ written p := by
  rw [ofPath, String.ofList_append]
  rfl

/-- What is written for a path is one of its encodings. -/
theorem encodes_written (p : Path) : Encodes p.text.toList (written p).toList := by
  have h := encodes_intercalate (p.text.toList.splitOn '/')
  rw [List.intercalate_splitOn] at h
  rwa [written, String.toList_ofList]

/-- A character that what is written for a path may hold. -/
def IsWritten (c : Char) : Prop := c.isAlphanum = true ∨ c ∈ ['-', '_', '.', '~', '%', '/']

theorem isWritten_of_mem_encodeByte {b : UInt8} {c : Char} (h : c ∈ encodeByte b) : IsWritten c := by
  have hb := b.toNat_lt
  rw [encodeByte] at h
  split at h
  · rename_i hu
    rw [List.mem_singleton] at h
    rw [isUnreserved, ← h] at hu
    simp only [Bool.or_eq_true, beq_iff_eq] at hu
    rcases hu with (((hu | rfl) | rfl) | rfl) | rfl
    · exact Or.inl hu
    all_goals exact Or.inr (by decide)
  · simp only [List.mem_cons, List.not_mem_nil, or_false] at h
    rcases h with rfl | rfl | rfl
    · exact Or.inr (by decide)
    · exact Or.inl (isHexDigit_upperHex (by omega)).2
    · exact Or.inl (isHexDigit_upperHex (by omega)).2

theorem isWritten_of_mem_intercalate {ps : List (List Char)} (h : ∀ p ∈ ps, ∀ c ∈ p, IsWritten c)
    {c : Char} (hc : c ∈ List.intercalate ['/'] ps) : IsWritten c := by
  rcases Text.mem_intercalate_cases hc with hsep | ⟨p, hp, hc⟩
  · rw [List.mem_singleton.mp hsep]
    exact Or.inr (by decide)
  · exact h p hp c hc

theorem isWritten_of_mem_written {p : Path} {c : Char} (h : c ∈ (written p).toList) :
    IsWritten c := by
  rw [written, String.toList_ofList] at h
  refine isWritten_of_mem_intercalate (fun q hq d hd => ?_) h
  obtain ⟨s, _, rfl⟩ := List.mem_map.mp hq
  obtain ⟨b, _, hb⟩ := List.mem_flatMap.mp hd
  exact isWritten_of_mem_encodeByte hb

/-! ## Round trip -/

/-- **A path is read back from every encoding of it**, the one that is written among them.  No two
paths are written alike, and what is written holds no more than unreserved characters, triples and
separators after the colon. -/
theorem encodings_read :
    (∀ (p : Path) (t : String), Encodes p.text.toList t.toList →
      toPath? ("file://" ++ t) = some p) ∧
    (∀ p, toPath? (ofPath p) = some p) ∧ Function.Injective ofPath ∧
    ∀ p, ∃ t, ofPath p = "file:" ++ t ∧ ∀ c ∈ t.toList, IsWritten c := by
  have hback : ∀ p, toPath? (ofPath p) = some p := by
    intro p
    rw [ofPath_eq]
    exact toPath?_of_encodes (encodes_written p)
  refine ⟨fun p t h => toPath?_of_encodes h, hback, fun p q h => ?_, fun p => ?_⟩
  · have hp := hback p
    rw [h, hback q] at hp
    exact (Option.some.inj hp).symm
  · refine ⟨"//" ++ written p, by rw [ofPath_eq, ← String.append_assoc]; rfl, fun c hc => ?_⟩
    rw [String.toList_append, List.mem_append] at hc
    rcases hc with hc | hc
    · have hsep : c = '/' := by simpa using hc
      exact Or.inr (by simp [hsep])
    · exact isWritten_of_mem_written hc

/-- A name with a space, a percent sign and an umlaut, its triples in either case. -/
theorem encodings_read_mixed :
    Encodes "/ü a%2f#".toList "/%c3%BC%20a%252f#".toList ∧
      toPath? ("file://" ++ "/%c3%BC%20a%252f#") = some ⟨"/ü a%2f#"⟩ := by
  have h : Encodes "/ü a%2f#".toList "/%c3%BC%20a%252f#".toList := by
    have hu : Triples (String.utf8EncodeChar 'ü') "%c3%BC".toList :=
      .cons (by decide) (by decide) (.cons (by decide) (by decide) .nil)
    have hspace : Triples (String.utf8EncodeChar ' ') "%20".toList :=
      .cons (by decide) (by decide) .nil
    have hpercent : Triples (String.utf8EncodeChar '%') "%25".toList :=
      .cons (by decide) (by decide) .nil
    have hrest : Encodes "2f#".toList "2f#".toList :=
      .plain (by decide) (.plain (by decide) (.plain (by decide) .nil))
    exact .plain (by decide) (.triples hu (.triples hspace (.plain (by decide)
      (.triples hpercent hrest))))
  exact ⟨h, encodings_read.1 ⟨"/ü a%2f#"⟩ "/%c3%BC%20a%252f#" h⟩

end SiteAssist.Uri
