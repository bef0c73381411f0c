import SiteAssist.Json.Decoder
import SiteAssist.Proofs.Json.Parsed

/-!
# Decoding a record

A record is filled as the members of an object come, one after another.  What is under one key goes into
one place of the record, its slot (`Slot`), and leaves the others alone: so when all is decoded, a slot has
the value under its key, or what it had at the start if there is none (`Slot.of_mem`, `Slot.of_notMem`).
The other way round, a record is decoded if what is under each of its keys is
(`exists_fieldsOfMembers`).
-/

namespace SiteAssist

namespace Json

namespace Decoder

variable {α β γ σ : Type} {v : Json}

/-! ## Single values -/

theorem string_eq_ok_iff {s : String} : string v = .ok s ↔ v = .string s := by
  cases v <;> simp [string]

theorem word_eq_ok_iff {n : Nat} : word v = .ok n ↔ v = Json.nat n ∧ n < Nat.pow 2 32 := by
  have hlimit : wordLimit = Nat.pow 2 32 := rfl
  unfold word
  split
  · rename_i k
    rw [hlimit]
    split
    · rename_i hk
      constructor
      · intro h
        cases h
        exact ⟨rfl, hk⟩
      · rintro ⟨heq, _⟩
        cases heq
        rfl
    · rename_i hk
      refine iff_of_false nofun ?_
      rintro ⟨heq, hn⟩
      cases heq
      exact hk hn
  · refine iff_of_false nofun ?_
    rintro ⟨heq, _⟩
    cases heq
  · rename_i hnat _
    refine iff_of_false nofun ?_
    rintro ⟨rfl, _⟩
    exact hnat n rfl

theorem optional_eq_ok_iff {item : Decoder α} {o : Option α} :
    optional item v = .ok o ↔ v = .null ∧ o = none ∨ v ≠ .null ∧ ∃ a, item v = .ok a ∧ o = some a := by
  unfold optional
  split
  · simp [eq_comm]
  · rename_i hv
    have hne : v ≠ .null := hv
    rw [map_eq_ok_iff]
    simp [hne, eq_comm]

theorem list_eq_ok_iff {item : Decoder α} {as : List α} :
    list item v = .ok as ↔
      ∃ items, v = .array items ∧ List.Forall₂ (fun i a => item i = .ok a) items as := by
  cases v with
  | array items =>
    rw [list, mapM_eq_ok_iff]
    simp
  | _ => exact iff_of_false nofun nofun

theorem required_eq_ok_iff {name : String} {o : Option α} {a : α} :
    required name o = .ok a ↔ o = some a := by
  cases o <;> simp [required]

/-! ## Slots -/

/-- A field whose value is set in the record as it is decoded. -/
def field (name : String) (item : Decoder β) (set : σ → β → σ) : Field σ :=
  { name, defaulted := false, decode := fun s v => (item v).map (set s) }

/-- The place of a record for what is under one key.  The field of that name fills it, and no other
field touches it. -/
structure Slot (fields : List (Field σ)) (key : String) (item : Decoder β) (view : β → γ) (get : σ → γ) :
    Prop where
  fills : ∀ f ∈ fields, f.name = key → ∀ s v s', f.decode s v = .ok s' →
    ∃ b, item v = .ok b ∧ get s' = view b
  keeps : ∀ f ∈ fields, f.name ≠ key → ∀ s v s', f.decode s v = .ok s' → get s' = get s
  known : key ∈ fields.map (·.name)

variable {fields : List (Field σ)} {key : String} {item : Decoder β} {view : β → γ} {get : σ → γ}
  {start s : σ} {members : List (String × Json)}

/-- One member is taken in by the field of its key, if there is one. -/
theorem fieldsOfMembers_cons_eq_ok_iff {m : String × Json} :
    fieldsOfMembers fields start (m :: members) = .ok s ↔
      ∃ t, fieldsOfMembers fields t members = .ok s ∧
        ((∃ field, fields.find? (·.name == m.1) = some field ∧ field.decode start m.2 = .ok t) ∨
          fields.find? (·.name == m.1) = none ∧ t = start) := by
  rw [fieldsOfMembers, List.foldlM_cons, bind_eq_ok_iff]
  refine exists_congr fun t => and_comm.trans (and_congr_right fun _ => ?_)
  cases hfind : fields.find? (·.name == m.1) <;> simp [hfind, eq_comm]

/-- A slot **keeps what it has** when there is nothing under its key. -/
theorem Slot.of_notMem (hs : Slot fields key item view get) (hkey : key ∉ members.map Prod.fst)
    (h : fieldsOfMembers fields start members = .ok s) : get s = get start := by
  induction members generalizing start with
  | nil =>
    cases h
    rfl
  | cons m ms ih =>
    rw [List.map_cons, List.mem_cons, not_or] at hkey
    obtain ⟨t, ht, ⟨field, hfind, hdec⟩ | ⟨_, rfl⟩⟩ := fieldsOfMembers_cons_eq_ok_iff.mp h
    · obtain ⟨hmem, hname⟩ := named_of_find? hfind
      rw [ih hkey.2 ht]
      exact hs.keeps field hmem (hname ▸ Ne.symm hkey.1) _ _ _ hdec
    · exact ih hkey.2 ht

/-- A slot ends up **with the value under its key**. -/
theorem Slot.of_mem (hs : Slot fields key item view get) (hnodup : (members.map Prod.fst).Nodup)
    (hmem : (key, v) ∈ members) (h : fieldsOfMembers fields start members = .ok s) :
    ∃ b, item v = .ok b ∧ get s = view b := by
  induction members generalizing start with
  | nil => cases hmem
  | cons m ms ih =>
    obtain ⟨hm, hms⟩ := List.nodup_cons.mp hnodup
    obtain ⟨t, ht, hstep⟩ := fieldsOfMembers_cons_eq_ok_iff.mp h
    rcases List.mem_cons.mp hmem with rfl | hmem
    · -- the key does not come again, so the slot stays as it is filled here
      rcases hstep with ⟨field, hfind, hdec⟩ | ⟨hfind, _⟩
      · obtain ⟨hfield, hname⟩ := named_of_find? hfind
        rw [hs.of_notMem hm ht]
        exact hs.fills field hfield hname _ _ _ hdec
      · obtain ⟨field, hfield, hname⟩ := List.mem_map.mp hs.known
        exact absurd hname (by simpa using List.find?_eq_none.mp hfind field hfield)
    · exact ih hms hmem ht

theorem Slot.eq_of_mem {b : β} (hs : Slot fields key item view get)
    (h : fieldsOfMembers fields start members = .ok s) (hnodup : (members.map Prod.fst).Nodup)
    (hmem : (key, v) ∈ members) (hb : item v = .ok b) : get s = view b := by
  obtain ⟨c, hc, hslot⟩ := hs.of_mem hnodup hmem h
  obtain rfl := Except.ok.inj (hb.symm.trans hc)
  exact hslot

/-- What fills a slot comes from the object, if the slot was empty. -/
theorem Slot.exists_mem {get : σ → Option β} {b : β} (hs : Slot fields key item some get)
    (hnodup : (members.map Prod.fst).Nodup) (h : fieldsOfMembers fields start members = .ok s)
    (hstart : get start = none) (hget : get s = some b) : ∃ v, (key, v) ∈ members ∧ item v = .ok b := by
  by_cases hkey : key ∈ members.map Prod.fst
  · obtain ⟨⟨_, v⟩, hmem, rfl⟩ := List.mem_map.mp hkey
    obtain ⟨c, hc, hslot⟩ := hs.of_mem hnodup hmem h
    obtain rfl := Option.some.inj (hget.symm.trans hslot)
    exact ⟨v, hmem, hc⟩
  · rw [hs.of_notMem hkey h, hstart] at hget
    cases hget

/-- A record is decoded **if what is under each of its keys is**, whatever is under others. -/
theorem exists_fieldsOfMembers
    (h : ∀ f ∈ fields, ∀ x, (f.name, x) ∈ members → ∀ s, ∃ s', f.decode s x = .ok s') (start : σ) :
    ∃ s, fieldsOfMembers fields start members = .ok s := by
  induction members generalizing start with
  | nil => exact ⟨start, rfl⟩
  | cons m ms ih =>
    have hms := ih fun f hf x hx => h f hf x (List.mem_cons_of_mem m hx)
    cases hfind : fields.find? (·.name == m.1) with
    | none =>
      obtain ⟨s, hs⟩ := hms start
      exact ⟨s, fieldsOfMembers_cons_eq_ok_iff.mpr ⟨start, hs, Or.inr ⟨hfind, rfl⟩⟩⟩
    | some f =>
      obtain ⟨hf, hname⟩ := named_of_find? hfind
      obtain ⟨t, ht⟩ := h f hf m.2 (hname ▸ List.mem_cons_self) start
      obtain ⟨s, hs⟩ := hms t
      exact ⟨s, fieldsOfMembers_cons_eq_ok_iff.mpr ⟨t, hs, Or.inl ⟨f, hfind, ht⟩⟩⟩

/-- What is under a key is decoded in its field, since nothing else is under it. -/
theorem exists_decode_field {set : σ → β → σ} {b : β} (hnodup : (members.map Prod.fst).Nodup)
    (hmem : (key, v) ∈ members) (h : item v = .ok b) :
    ∀ x, ((field key item set).name, x) ∈ members → ∀ s, ∃ s', (field key item set).decode s x = .ok s' := by
  intro x hx s
  have hv : members.lookup key = some v := (mem_iff_lookup hnodup).mp hmem
  have hx : members.lookup key = some x := (mem_iff_lookup hnodup).mp hx
  obtain rfl := Option.some.inj (hv.symm.trans hx)
  exact ⟨set s b, map_eq_ok_iff.mpr ⟨b, h, rfl⟩⟩

/-! ## Records as arrays -/

variable {name : String} {count given : Nat} {items : List Json}

theorem fieldsOfItems_nil_eq_ok_iff :
    fieldsOfItems name count given [] items start = .ok s ↔ items = [] ∧ start = s := by
  cases items <;> simp [fieldsOfItems]

/-- A field takes the next item. -/
theorem fieldsOfItems_field_eq_ok_iff {set : σ → β → σ} :
    fieldsOfItems name count given (field key item set :: fields) items start = .ok s ↔
      ∃ x rest b, items = x :: rest ∧ item x = .ok b ∧
        fieldsOfItems name count given fields rest (set start b) = .ok s := by
  cases items with
  | nil => simp [fieldsOfItems, field]
  | cons x rest =>
    rw [fieldsOfItems, field]
    cases hdec : item x <;> simp [hdec, Except.map]

end Decoder

end Json

end SiteAssist
