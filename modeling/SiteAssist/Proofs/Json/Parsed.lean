import SiteAssist.Json.Reader
import SiteAssist.Proofs.Json.Members
import SiteAssist.Proofs.Outcome

/-!
# What is parsed

A text may repeat a key.  The value that is parsed from it does not: each of its objects, however deep,
has its members in order (`Proper`, `proper_parse`).  So there is **one value under a key**
(`Holds`, `Proper.get?_eq_some_iff`), and a decoder that goes through the members meets each key once.
-/

namespace SiteAssist

namespace Json

variable {v x y : Json} {key : String} {members : List (String × Json)}

/-- The value is an object with that member. -/
def Holds (v : Json) (key : String) (x : Json) : Prop :=
  ∃ members, v = .object members ∧ (key, x) ∈ members

/-- Every object in the value has its members in order, each key once. -/
inductive Proper : Json → Prop
  | null : Proper .null
  | bool (b : Bool) : Proper (.bool b)
  | number (n : Number) : Proper (.number n)
  | string (s : String) : Proper (.string s)
  | array {items : List Json} (each : ∀ v ∈ items, Proper v) : Proper (.array items)
  | object {members : List (String × Json)} (ascending : Ascending members)
      (each : ∀ m ∈ members, Proper m.2) : Proper (.object members)

theorem holds_object_iff : Holds (.object members) key x ↔ (key, x) ∈ members := by
  constructor
  · rintro ⟨ms, heq, hmem⟩
    cases heq
    exact hmem
  · exact fun h => ⟨members, rfl, h⟩

/-- Looking a key up finds **what the value holds under it**. -/
theorem Proper.get?_eq_some_iff (hv : Proper v) : v.get? key = some x ↔ Holds v key x := by
  cases hv with
  | object ascending each =>
    rw [holds_object_iff, mem_iff_lookup ascending.nodup]
    rfl
  | _ =>
    refine iff_of_false nofun ?_
    rintro ⟨ms, heq, _⟩
    cases heq

theorem Proper.get?_eq_none_iff (hv : Proper v) : v.get? key = none ↔ ∀ x, ¬Holds v key x := by
  simp only [← hv.get?_eq_some_iff, Option.eq_none_iff_forall_ne_some, ne_eq]

/-- One value stands under a key. -/
theorem Proper.holds_unique (hv : Proper v) (hx : Holds v key x) (hy : Holds v key y) : x = y :=
  Option.some.inj ((hv.get?_eq_some_iff.mpr hx).symm.trans (hv.get?_eq_some_iff.mpr hy))

theorem Proper.of_holds (hv : Proper v) (hx : Holds v key x) : Proper x := by
  obtain ⟨ms, rfl, hmem⟩ := hx
  cases hv with
  | object ascending each => exact each _ hmem

theorem proper_mkObject (h : ∀ m ∈ members, Proper m.2) : Proper (mkObject members) := by
  obtain ⟨ms, heq, hasc, hsub⟩ := exists_mkObject members
  rw [heq]
  exact .object hasc fun m hm => h m (hsub hm)

/-! ## The parser -/

namespace Reader

/-- What is read with that much fuel is proper. -/
structure ReadsProper (fuel : Nat) : Prop where
  value {depth : Nat} {s rest : List Char} {v : Json} :
    anyValue fuel depth s = .ok (v, rest) → Proper v
  items {depth : Nat} {first : Bool} {s rest : List Char} {vs : List Json} :
    anyItems fuel depth first s = .ok (vs, rest) → ∀ v ∈ vs, Proper v
  members {depth : Nat} {first : Bool} {s rest : List Char} {ms : List (String × Json)} :
    anyMembers fuel depth first s = .ok (ms, rest) → ∀ m ∈ ms, Proper m.2

section
variable {fuel depth : Nat} {first : Bool} {s rest : List Char}

theorem proper_of_map {α β : Type} {x : Except α β} {f : β → Json × List Char}
    (hf : ∀ a, Proper (f a).1) (h : x.map f = .ok (v, rest)) : Proper v := by
  obtain ⟨a, _, heq⟩ := map_eq_ok_iff.mp h
  have := hf a
  rwa [heq] at this

theorem ReadsProper.value_succ (ih : ReadsProper fuel)
    (h : anyValue (fuel + 1) depth s = .ok (v, rest)) : Proper v := by
  rw [anyValue] at h
  split at h
  · cases h
  · exact proper_of_map (fun _ => .null) h
  · exact proper_of_map (fun _ => .bool true) h
  · exact proper_of_map (fun _ => .bool false) h
  · exact proper_of_map (fun _ => .string _) h
  · split at h
    · cases h
    · obtain ⟨⟨items, _⟩, hread, heq⟩ := bind_eq_ok_iff.mp h
      cases heq
      exact .array (ih.items hread)
  · split at h
    · cases h
    · obtain ⟨⟨members, _⟩, hread, heq⟩ := bind_eq_ok_iff.mp h
      cases heq
      exact proper_mkObject (ih.members hread)
  · split at h
    · exact proper_of_map (fun _ => .number _) h
    · cases h

theorem ReadsProper.items_succ {vs : List Json} (ih : ReadsProper fuel)
    (h : anyItems (fuel + 1) depth first s = .ok (vs, rest)) : ∀ v ∈ vs, Proper v := by
  rw [anyItems] at h
  obtain ⟨⟨more, _⟩, _, h⟩ := bind_eq_ok_iff.mp h
  cases more with
  | false =>
    cases h
    exact nofun
  | true =>
    obtain ⟨⟨v, _⟩, hv, h⟩ := bind_eq_ok_iff.mp h
    obtain ⟨⟨vs, _⟩, hvs, heq⟩ := bind_eq_ok_iff.mp h
    cases heq
    exact List.forall_mem_cons.mpr ⟨ih.value hv, ih.items hvs⟩

theorem ReadsProper.members_succ {ms : List (String × Json)} (ih : ReadsProper fuel)
    (h : anyMembers (fuel + 1) depth first s = .ok (ms, rest)) : ∀ m ∈ ms, Proper m.2 := by
  rw [anyMembers] at h
  obtain ⟨⟨key, _⟩, _, h⟩ := bind_eq_ok_iff.mp h
  cases key with
  | none =>
    cases h
    exact nofun
  | some key =>
    obtain ⟨⟨v, _⟩, hv, h⟩ := bind_eq_ok_iff.mp h
    obtain ⟨⟨ms, _⟩, hms, heq⟩ := bind_eq_ok_iff.mp h
    cases heq
    exact List.forall_mem_cons.mpr ⟨ih.value hv, ih.members hms⟩

end

/-- Values, items and members are read in proper form, with any fuel. -/
theorem readsProper : ∀ fuel : Nat, ReadsProper fuel
  | 0 => ⟨nofun, nofun, nofun⟩
  | fuel + 1 =>
    have ih := readsProper fuel
    ⟨ih.value_succ, ih.items_succ, ih.members_succ⟩

end Reader

/-- **What is parsed is proper**, whichever keys the text repeats. -/
theorem proper_parse {text : String} (h : parse text = .ok v) : Proper v := by
  rw [parse, Reader.run] at h
  split at h
  · cases h
  · rename_i hread
    split at h
    · cases h
      exact (Reader.readsProper _).value hread
    · cases h

end Json

end SiteAssist
