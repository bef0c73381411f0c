import SiteAssist.Proofs.Json.Scanning

/-!
# Values that are passed over

What tells a reader of another item or member, or of none, is what stands before an entry or at the end
(`nextItem_eq_true_iff`, `nextMember_eq_some_iff`).  So a value is passed over **exactly where it is
written**: what is passed over is a value (`skips`), by induction on the steps that are left, and a value
that is shorter than the steps is passed over (`passes`).
-/

namespace SiteAssist.Json

open Reader

variable {α : Type} {c : Char} {s t rest : List Char} {first : Bool}

/-! ## Marks -/

theorem Starts.append (h : Starts t) : Starts (t ++ s) := by
  obtain ⟨c, r, rfl, hc⟩ := h
  exact ⟨c, r ++ s, rfl, hc⟩

theorem Starts.spaces (h : Starts t) : spaces t = t := by
  obtain ⟨c, r, rfl, hc⟩ := h
  exact spaces_cons fun h => hc (List.mem_append_left [']'] h)

theorem starts_of_spaces (h : spaces s = c :: t) (hclose : c ≠ ']') : Starts (c :: t) := by
  have hc := (spaces_eq_cons_iff.mp h).1
  exact ⟨c, t, rfl, by grind⟩

/-- What another item of an array, or none, is told by. -/
theorem nextItem_cases {more : Bool} (h : nextItem first s = .ok (more, t)) :
    (more = false ∧ ∃ r, t = ']' :: r ∧ spaces s = t) ∨
      more = true ∧ Starts t ∧ (first = true ∧ spaces s = t ∨
        first = false ∧ ∃ r, spaces s = ',' :: r ∧ spaces r = t) := by
  unfold nextItem at h
  split at h
  · cases h
  · next r heq =>
    cases h
    exact Or.inl ⟨rfl, r, rfl, heq⟩
  · next c r hclose heq =>
    refine Or.inr ?_
    split at h
    · next hfirst =>
      cases h
      exact ⟨rfl, starts_of_spaces heq hclose, Or.inl ⟨hfirst, heq⟩⟩
    · next hfirst =>
      split at h
      · cases h
      · next hcomma =>
        obtain rfl := Decidable.not_not.mp hcomma
        split at h
        · cases h
        · cases h
        · next hnil hbracket =>
          cases h
          obtain ⟨d, r', hspaces⟩ := List.exists_cons_of_ne_nil hnil
          refine ⟨rfl, ?_, Or.inr ⟨Bool.eq_false_iff.mpr hfirst, r, heq, rfl⟩⟩
          rw [hspaces]
          exact starts_of_spaces hspaces fun hd => hbracket r' (hd ▸ hspaces)

theorem nextItem_eq_false_iff :
    nextItem first s = .ok (false, t) ↔ ∃ u rest, Blank u ∧ s = u ++ ']' :: rest ∧ t = ']' :: rest := by
  constructor
  · intro h
    obtain ⟨-, r, rfl, heq⟩ | ⟨h, -⟩ := nextItem_cases h
    · obtain ⟨-, u, hu, hs⟩ := spaces_eq_cons_iff.mp heq
      exact ⟨u, r, hu, hs, rfl⟩
    · cases h
  · rintro ⟨u, rest, hu, rfl, rfl⟩
    rw [nextItem, spaces_append hu, spaces_cons (by decide)]
    rfl

theorem nextItem_eq_true_iff :
    nextItem first s = .ok (true, t) ↔ ∃ lead, Lead first lead ∧ Starts t ∧ s = lead ++ t := by
  constructor
  · intro h
    obtain ⟨h, -⟩ | ⟨-, ht, ⟨rfl, heq⟩ | ⟨rfl, r, hcomma, heq⟩⟩ := nextItem_cases h
    · cases h
    · obtain ⟨u, hu, hs⟩ := exists_blank s
      exact ⟨u, .first hu, ht, heq ▸ hs⟩
    · obtain ⟨-, u, hu, rfl⟩ := spaces_eq_cons_iff.mp hcomma
      obtain ⟨v, hv, hr⟩ := exists_blank r
      refine ⟨u ++ ',' :: v, .comma hu hv, ht, ?_⟩
      rw [List.append_assoc, List.cons_append, ← heq, ← hr]
  · rintro ⟨lead, hlead, ht, rfl⟩
    have hspaces := ht.spaces
    obtain ⟨c, r, rfl, hc⟩ := ht
    have hclose : c ≠ ']' := fun h => hc (by simp [h])
    cases hlead with
    | first hu => simp [nextItem, spaces_append hu, hspaces]
    | comma hu hv =>
      have hcomma (s : List Char) : spaces (',' :: s) = ',' :: s := spaces_cons (by decide)
      simp [nextItem, spaces_append hu, spaces_append hv, hspaces, hclose, hcomma]

theorem closeArray_eq_ok_iff : closeArray s = .ok rest ↔ ∃ u, Blank u ∧ s = u ++ ']' :: rest := by
  constructor
  · intro h
    unfold closeArray at h
    split at h
    · cases h
    · next heq =>
      cases h
      exact (spaces_eq_cons_iff.mp heq).2
    · cases h
  · rintro ⟨u, hu, rfl⟩
    rw [closeArray, spaces_append hu, spaces_cons (by decide)]
    rfl

/-- A reader of what stands between quotes: it takes a text up to and with the closing quote. -/
def ReadsKey (key : List Char → Except Fault (α × List Char)) (Key : α → List Char → Prop) : Prop :=
  ∀ k s rest, key s = .ok (k, rest) ↔ ∃ body, Key k body ∧ s = body ++ '"' :: rest

section Keys

variable {key : List Char → Except Fault (α × List Char)} {Key : α → List Char → Prop} {k : α}

theorem memberKey_eq_ok_iff (hkey : ReadsKey key Key)
    {found : Option α} : memberKey key s = .ok (found, t) ↔ ∃ k body u, found = some k ∧ Key k body ∧
      Blank u ∧ s = '"' :: (body ++ '"' :: (u ++ ':' :: t)) := by
  constructor
  · intro h
    unfold memberKey at h
    split at h
    · cases h
    · obtain ⟨⟨k, r⟩, hread, hcolon⟩ := bind_eq_ok_iff.mp h
      obtain ⟨body, hbody, rfl⟩ := (hkey ..).mp hread
      dsimp only at hcolon
      split at hcolon
      · cases hcolon
      · next heq =>
        cases hcolon
        obtain ⟨-, u, hu, rfl⟩ := spaces_eq_cons_iff.mp heq
        exact ⟨k, body, u, rfl, hbody, hu, rfl⟩
      · cases hcolon
    · cases h
  · rintro ⟨k, body, u, rfl, hbody, hu, rfl⟩
    have hcolon : spaces (u ++ ':' :: t) = ':' :: t := by
      rw [spaces_append hu, spaces_cons (by decide)]
    rw [memberKey, (hkey ..).mpr ⟨body, hbody, rfl⟩]
    simp only [bind, Except.bind, hcolon]

theorem nextMember_eq_none_iff (hkey : ReadsKey key Key) :
    nextMember key first s = .ok (none, t) ↔
      ∃ u rest, Blank u ∧ s = u ++ '\x7d' :: rest ∧ t = '\x7d' :: rest := by
  constructor
  · intro h
    have hmember {s : List Char} (h : memberKey key s = .ok (none, t)) : False := by
      obtain ⟨_, _, _, h, _⟩ := (memberKey_eq_ok_iff hkey).mp h
      cases h
    unfold nextMember at h
    split at h
    · cases h
    · next r heq =>
      cases h
      obtain ⟨-, u, hu, rfl⟩ := spaces_eq_cons_iff.mp heq
      exact ⟨u, r, hu, rfl, rfl⟩
    · split at h
      · exact (hmember h).elim
      · split at h
        · cases h
        · exact (hmember h).elim
  · rintro ⟨u, rest, hu, rfl, rfl⟩
    rw [nextMember, spaces_append hu, spaces_cons (by decide)]
    rfl

theorem nextMember_eq_some_iff (hkey : ReadsKey key Key) :
    nextMember key first s = .ok (some k, t) ↔ ∃ lead body u, Lead first lead ∧ Key k body ∧ Blank u ∧
      s = lead ++ '"' :: (body ++ '"' :: (u ++ ':' :: t)) := by
  constructor
  · intro h
    unfold nextMember at h
    split at h
    · cases h
    · cases h
    · next c r _ heq =>
      obtain ⟨-, u, hu, rfl⟩ := spaces_eq_cons_iff.mp heq
      split at h
      · next hfirst =>
        obtain ⟨k, body, v, hk, hbody, hv, heq⟩ := (memberKey_eq_ok_iff hkey).mp h
        cases hk
        cases hfirst
        exact ⟨u, body, v, .first hu, hbody, hv, by rw [heq]⟩
      · next hfirst =>
        split at h
        · cases h
        · next hcomma =>
          obtain rfl := Decidable.not_not.mp hcomma
          obtain rfl := Bool.eq_false_iff.mpr hfirst
          obtain ⟨k, body, w, hk, hbody, hw, heq⟩ := (memberKey_eq_ok_iff hkey).mp h
          cases hk
          obtain ⟨v, hv, hr⟩ := exists_blank r
          refine ⟨u ++ ',' :: v, body, w, .comma hu hv, hbody, hw, ?_⟩
          rw [List.append_assoc, List.cons_append, ← heq, ← hr]
  · rintro ⟨lead, body, u, hlead, hbody, hu, rfl⟩
    have hmember := (memberKey_eq_ok_iff hkey (t := t)).mpr ⟨k, body, u, rfl, hbody, hu, rfl⟩
    have hquote (s : List Char) : spaces ('"' :: s) = '"' :: s := spaces_cons (by decide)
    have hcomma (s : List Char) : spaces (',' :: s) = ',' :: s := spaces_cons (by decide)
    cases hlead with
    | first hv => simp [nextMember, spaces_append hv, hquote, hmember]
    | comma hv hw => simp [nextMember, spaces_append hv, spaces_append hw, hquote, hcomma, hmember]

end Keys

theorem readsKey_stringRest : ReadsKey stringRest fun k => Spells k.toList :=
  fun _ _ _ => stringRest_eq_ok_iff

theorem readsKey_skipString :
    ReadsKey (fun s => (skipString (s.length + 1) s).map ((), ·)) fun _ => Loose := by
  intro k s rest
  rw [map_eq_ok_iff]
  constructor
  · rintro ⟨r, hread, heq⟩
    cases heq
    exact skipString_eq_ok_iff.mp hread
  · exact fun h => ⟨rest, skipString_eq_ok_iff.mpr h, rfl⟩

/-! ## Entries -/

section Entries

variable {close : Char} {Entry : α → List Char → Prop} {as : List α}

theorem Entries.ne_nil (h : Entries close Entry first as s) : s ≠ [] := by
  induction h with
  | done => simp
  | entry _ _ _ ih => simp [ih]

theorem ends_of_blank {u : List Char} (hu : Blank u) (hc : c ∈ [',', ']', '\x7d']) : Ends (u ++ c :: s) := by
  intro d hd
  cases u with
  | nil =>
    cases hd
    exact List.mem_append_right [' ', '\n', '\t', '\r'] hc
  | cons b u =>
    cases hd
    exact List.mem_append_left [',', ']', '\x7d'] (hu _ List.mem_cons_self)

/-- What follows an entry ends a value. -/
theorem Entries.ends (h : Entries close Entry false as s) (hclose : close ∈ [']', '\x7d']) :
    Ends (s ++ rest) := by
  cases h with
  | done hu =>
    rw [List.append_assoc]
    exact ends_of_blank hu (List.mem_cons_of_mem _ hclose)
  | entry hlead _ _ =>
    cases hlead with
    | comma hu _ =>
      rw [List.append_assoc, List.append_assoc]
      exact ends_of_blank hu List.mem_cons_self

/-- There are no more entries than characters before the closing mark. -/
theorem Entries.length_lt (h : Entries close Entry first as s) (hstarts : ∀ a t, Entry a t → Starts t) :
    as.length < s.length := by
  induction h with
  | done => simp
  | entry _ ht _ ih =>
    obtain ⟨c, t, rfl, -⟩ := hstarts _ _ ht
    simp only [List.length_append, List.length_cons]
    omega

theorem Entries.exists_text {a : α} (h : Entries close Entry first as s) (ha : a ∈ as) : ∃ t, Entry a t := by
  induction h with
  | done => cases ha
  | entry _ ht _ ih =>
    cases ha with
    | head => exact ⟨_, ht⟩
    | tail _ ha => exact ih ha

end Entries

/-! ## Values that are passed over -/

theorem NumberText.exists_cons (h : NumberText s) : ∃ c t, s = c :: t ∧ (c = '-' ∨ c.isDigit = true) := by
  obtain ⟨sign, hsign, whole, fraction, exponent, hw, -, -, rfl⟩ := h
  rcases hsign with _ | ⟨_, _ | ⟨_, h⟩⟩
  · obtain ⟨c, w, rfl, hc⟩ := hw.exists_cons
    exact ⟨c, _, rfl, Or.inr hc⟩
  · exact ⟨'-', _, rfl, Or.inl rfl⟩
  · cases h

/-- A number starts like no other value, and with no blank and no bracket. -/
theorem ne_of_number {d : Char} (hc : c = '-' ∨ c.isDigit = true)
    (hd : d ∈ [' ', '\n', '\t', '\r', ']', 'n', 't', 'f', '"', '[', '\x7b']) : c ≠ d := by
  have hall : ∀ d ∈ [' ', '\n', '\t', '\r', ']', 'n', 't', 'f', '"', '[', '\x7b'],
      d ≠ '-' ∧ d.isDigit = false := by simp
  rintro rfl
  rcases hc with hc | hc
  · exact (hall c hd).1 hc
  · simp [(hall c hd).2] at hc

theorem starts_of_number (hc : c = '-' ∨ c.isDigit = true) : Starts (c :: s) :=
  ⟨c, s, rfl, fun h => ne_of_number hc (List.mem_append_left ['n', 't', 'f', '"', '[', '\x7b'] h) rfl⟩

theorem ValueText.starts (h : ValueText t) : Starts t := by
  cases h with
  | null | true | false | string | array | object => exact ⟨_, _, rfl, by decide⟩
  | number hs =>
    obtain ⟨c, s, rfl, hc⟩ := hs.exists_cons
    exact starts_of_number hc

theorem Starts.eq_nil_of_blank {u : List Char} (h : Starts (u ++ s)) (hu : Blank u) : u = [] := by
  cases u with
  | nil => rfl
  | cons b u =>
    obtain ⟨c, t, heq, hc⟩ := h
    cases heq
    exact absurd (List.mem_append_left [']'] (hu _ List.mem_cons_self)) hc

section Skipping

variable {fuel : Nat}

/-- With that many steps left, what is passed over is a value, and items and members up to their mark. -/
structure Skips (fuel : Nat) : Prop where
  value {s rest : List Char} : skipValue fuel s = .ok rest →
    ∃ u t, Blank u ∧ ValueText t ∧ s = u ++ (t ++ rest)
  items {first : Bool} {s rest : List Char} : skipItems fuel first s = .ok rest →
    ∃ items body, Entries ']' (fun _ : Unit => ValueText) first items body ∧ s = body ++ rest
  members {first : Bool} {s rest : List Char} : skipMembers fuel first s = .ok rest →
    ∃ members body, Entries '\x7d' (fun _ : Unit => Member Loose ValueText) first members body ∧
      s = body ++ rest

theorem Skips.value_succ (hskips : Skips fuel) (h : skipValue (fuel + 1) s = .ok rest) :
    ∃ u t, Blank u ∧ ValueText t ∧ s = u ++ (t ++ rest) := by
  have hword {c : Char} {word r : List Char} (hs : spaces s = c :: r) (hr : keyword word r = .ok rest)
      (ht : ValueText (c :: word)) : ∃ u t, Blank u ∧ ValueText t ∧ s = u ++ (t ++ rest) := by
    obtain ⟨-, u, hu, rfl⟩ := spaces_eq_cons_iff.mp hs
    exact ⟨u, _, hu, ht, by rw [keyword_eq_ok_iff.mp hr, List.cons_append]⟩
  rw [skipValue] at h
  split at h
  · cases h
  · next hs => exact hword hs h .null
  · next hs => exact hword hs h .true
  · next hs => exact hword hs h .false
  · next hs =>
    obtain ⟨-, u, hu, rfl⟩ := spaces_eq_cons_iff.mp hs
    obtain ⟨body, hbody, rfl⟩ := skipString_eq_ok_iff.mp h
    exact ⟨u, _, hu, .string hbody, by simp⟩
  · next hs =>
    obtain ⟨-, u, hu, rfl⟩ := spaces_eq_cons_iff.mp hs
    obtain ⟨items, body, hbody, rfl⟩ := hskips.items h
    exact ⟨u, _, hu, .array hbody, rfl⟩
  · next hs =>
    obtain ⟨-, u, hu, rfl⟩ := spaces_eq_cons_iff.mp hs
    obtain ⟨members, body, hbody, rfl⟩ := hskips.members h
    exact ⟨u, _, hu, .object hbody, rfl⟩
  · next hs =>
    split at h
    · obtain ⟨-, u, hu, rfl⟩ := spaces_eq_cons_iff.mp hs
      obtain ⟨t, ht, heq⟩ := skipNumber_sound h
      exact ⟨u, t, hu, .number ht, by rw [heq]⟩
    · cases h

theorem Skips.items_succ (hskips : Skips fuel) (h : skipItems (fuel + 1) first s = .ok rest) :
    ∃ items body, Entries ']' (fun _ : Unit => ValueText) first items body ∧ s = body ++ rest := by
  rw [skipItems] at h
  obtain ⟨⟨more, r⟩, hnext, hrest⟩ := bind_eq_ok_iff.mp h
  cases more with
  | false =>
    obtain ⟨u, r, hu, rfl, rfl⟩ := nextItem_eq_false_iff.mp hnext
    cases hrest
    exact ⟨[], u ++ [']'], .done hu, by simp⟩
  | true =>
    obtain ⟨lead, hlead, hr, rfl⟩ := nextItem_eq_true_iff.mp hnext
    obtain ⟨r', hvalue, hitems⟩ := bind_eq_ok_iff.mp hrest
    obtain ⟨u, t, hu, ht, rfl⟩ := hskips.value hvalue
    obtain rfl := hr.eq_nil_of_blank hu
    obtain ⟨items, body, hbody, rfl⟩ := hskips.items hitems
    exact ⟨() :: items, _, .entry hlead ht hbody, by simp⟩

theorem Skips.members_succ (hskips : Skips fuel) (h : skipMembers (fuel + 1) first s = .ok rest) :
    ∃ members body, Entries '\x7d' (fun _ : Unit => Member Loose ValueText) first members body ∧
      s = body ++ rest := by
  rw [skipMembers] at h
  obtain ⟨⟨key, r⟩, hnext, hrest⟩ := bind_eq_ok_iff.mp h
  cases key with
  | none =>
    obtain ⟨u, r, hu, rfl, rfl⟩ := (nextMember_eq_none_iff readsKey_skipString).mp hnext
    cases hrest
    exact ⟨[], u ++ ['\x7d'], .done hu, by simp⟩
  | some =>
    obtain ⟨lead, body, u, hlead, hkey, hu, rfl⟩ := (nextMember_eq_some_iff readsKey_skipString).mp hnext
    obtain ⟨r', hvalue, hmembers⟩ := bind_eq_ok_iff.mp hrest
    obtain ⟨v, t, hv, ht, rfl⟩ := hskips.value hvalue
    obtain ⟨members, s, hs, rfl⟩ := hskips.members hmembers
    exact ⟨() :: members, _, .entry hlead (.of hkey hu hv ht) hs, by simp⟩

theorem skips (fuel : Nat) : Skips fuel := by
  induction fuel with
  | zero => exact ⟨nofun, nofun, nofun⟩
  | succ fuel ih => exact ⟨ih.value_succ, ih.items_succ, ih.members_succ⟩

/-- So many steps are enough for what is shorter. -/
structure Passes (fuel : Nat) : Prop where
  value {u t rest : List Char} : Blank u → ValueText t → Ends rest → t.length < fuel →
    skipValue fuel (u ++ (t ++ rest)) = .ok rest
  items {first : Bool} {items : List Unit} {body rest : List Char} :
    Entries ']' (fun _ => ValueText) first items body → body.length < fuel →
    skipItems fuel first (body ++ rest) = .ok rest
  members {first : Bool} {members : List Unit} {body rest : List Char} :
    Entries '\x7d' (fun _ => Member Loose ValueText) first members body → body.length < fuel →
    skipMembers fuel first (body ++ rest) = .ok rest

theorem skipValue_number (hc : c = '-' ∨ c.isDigit = true) (hs : spaces s = c :: t) :
    skipValue (fuel + 1) s = skipNumber (c :: t) := by
  rw [skipValue, hs]
  split
  · next heq => cases heq
  iterate 6
    · next heq =>
      cases heq
      exact absurd rfl (ne_of_number hc (by decide))
  · next heq =>
    cases heq
    exact if_pos hc

theorem Passes.value_succ (hpasses : Passes fuel) {u : List Char} (hu : Blank u) (ht : ValueText t)
    (hrest : Ends rest) (hfuel : t.length < fuel + 1) :
    skipValue (fuel + 1) (u ++ (t ++ rest)) = .ok rest := by
  have hspaces : spaces (u ++ (t ++ rest)) = t ++ rest := by
    rw [spaces_append hu, ht.starts.append.spaces]
  cases ht with
  | number hs =>
    obtain ⟨c, r, rfl, hc⟩ := hs.exists_cons
    rw [skipValue_number hc hspaces]
    exact skipNumber_complete hs hrest
  | string hs =>
    rw [skipValue, hspaces]
    exact skipString_eq_ok_iff.mpr ⟨_, hs, by simp⟩
  | array hs =>
    rw [skipValue, hspaces]
    exact hpasses.items hs (Nat.lt_of_succ_lt_succ hfuel)
  | object hs =>
    rw [skipValue, hspaces]
    exact hpasses.members hs (Nat.lt_of_succ_lt_succ hfuel)
  | _ =>
    rw [skipValue, hspaces]
    exact keyword_eq_ok_iff.mpr rfl

theorem Passes.items_succ (hpasses : Passes fuel) {items : List Unit} {body : List Char}
    (h : Entries ']' (fun _ => ValueText) first items body) (hfuel : body.length < fuel + 1) :
    skipItems (fuel + 1) first (body ++ rest) = .ok rest := by
  cases h with
  | done hu =>
    rw [skipItems, nextItem_eq_false_iff.mpr ⟨_, rest, hu, by simp, rfl⟩]
    rfl
  | @entry _ _ items lead t s hlead ht hs =>
    have hpos := List.length_pos_iff.mpr hs.ne_nil
    have hlength : t.length < fuel ∧ s.length < fuel := by
      obtain ⟨c, r, rfl, -⟩ := ht.starts
      simp only [List.length_append, List.length_cons] at hfuel ⊢
      omega
    rw [skipItems, nextItem_eq_true_iff.mpr ⟨lead, hlead, ht.starts.append (s := s ++ rest), by simp⟩]
    change (skipValue fuel (t ++ (s ++ rest)) >>= _) = _
    rw [← List.nil_append (t ++ (s ++ rest)),
      hpasses.value (List.forall_mem_nil _) ht (hs.ends (by simp)) hlength.1]
    exact hpasses.items hs hlength.2

theorem Passes.members_succ (hpasses : Passes fuel) {members : List Unit} {body : List Char}
    (h : Entries '\x7d' (fun _ => Member Loose ValueText) first members body)
    (hfuel : body.length < fuel + 1) : skipMembers (fuel + 1) first (body ++ rest) = .ok rest := by
  cases h with
  | done hu =>
    rw [skipMembers, nextSkipped,
      (nextMember_eq_none_iff readsKey_skipString).mpr ⟨_, rest, hu, by simp, rfl⟩]
    rfl
  | @entry _ _ members lead _ s hlead ht hs =>
    cases ht with
    | @of key u v t hkey hu hv ht =>
      have hlength : t.length < fuel ∧ s.length < fuel := by
        have hpos := List.length_pos_iff.mpr hs.ne_nil
        simp only [List.length_append, List.length_cons] at hfuel
        omega
      have hnext : nextSkipped first (lead ++ '"' :: (key ++ '"' :: (u ++ ':' :: (v ++ (t ++ (s ++ rest)))))) =
          .ok (some (), v ++ (t ++ (s ++ rest))) :=
        (nextMember_eq_some_iff readsKey_skipString).mpr ⟨lead, key, u, hlead, hkey, hu, rfl⟩
      simp only [List.append_assoc, List.cons_append]
      rw [skipMembers, hnext]
      change (skipValue fuel (v ++ (t ++ (s ++ rest))) >>= _) = _
      rw [hpasses.value hv ht (hs.ends (by simp)) hlength.1]
      exact hpasses.members hs hlength.2

theorem passes (fuel : Nat) : Passes fuel := by
  induction fuel with
  | zero => exact ⟨nofun, nofun, nofun⟩
  | succ fuel ih => exact ⟨ih.value_succ, ih.items_succ, ih.members_succ⟩

end Skipping

end SiteAssist.Json
