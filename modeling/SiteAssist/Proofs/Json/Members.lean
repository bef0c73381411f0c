import Mathlib.Data.List.Induction
import Mathlib.Data.List.Sort
import SiteAssist.Json.Value
import SiteAssist.Proofs.Text.Order

/-!
# The members of an object

An object is put together from a list of members (`Json.mkObject`).  It holds them in ascending order of
their keys, each key once (`exists_mkObject`), and under a key the last value that was given for it
(`get?_mkObject`).  So an object is known by **what is under its keys** (`mkObject_congr`).
-/

namespace SiteAssist

namespace Json

variable {members : List (String × Json)} {key k : String} {value : Json}

/-- What is found under a name is one of all, and has the name. -/
theorem named_of_find? {β : Type} {fields : List β} {name : β → String} {field : β}
    (h : fields.find? (name · == key) = some field) : field ∈ fields ∧ name field = key :=
  ⟨List.mem_of_find?_eq_some h, by simpa using List.find?_some h⟩

theorem lookup_cons_if {α : Type} (k j : String) (v : α) (ms : List (String × α)) :
    ((j, v) :: ms).lookup k = if k = j then some v else ms.lookup k := by
  rw [List.lookup_cons]
  by_cases h : k = j
  · rw [if_pos h, beq_iff_eq.mpr h]
  · rw [if_neg h, beq_false_of_ne h]

/-- Putting a member in changes the value of its key alone. -/
theorem lookup_putMember (key : String) (value : Json) (members : List (String × Json)) (k : String) :
    (putMember key value members).lookup k = if k = key then some value else members.lookup k := by
  induction members with
  | nil => rw [putMember, lookup_cons_if]
  | cons m ms ih =>
    obtain ⟨j, v⟩ := m
    rw [putMember]
    split
    · rename_i hj
      subst hj
      rw [lookup_cons_if, lookup_cons_if]
      by_cases h : k = key
      · rw [if_pos h, if_pos h]
      · rw [if_neg h, if_neg h, if_neg h]
    · split
      · rw [lookup_cons_if]
      · rename_i hj _
        rw [lookup_cons_if, lookup_cons_if, ih]
        by_cases h : k = key
        · subst h
          rw [if_neg hj, if_pos rfl, if_pos rfl]
        · rw [if_neg h, if_neg h]

/-- **Under a key is the last value** that was given for it. -/
theorem get?_mkObject (members : List (String × Json)) (k : String) :
    (mkObject members).get? k = members.reverse.lookup k := by
  rw [mkObject, get?]
  induction members using List.reverseRecOn with
  | nil => rfl
  | append_singleton ms m ih =>
    rw [List.foldl_append, List.reverse_concat, lookup_cons_if, ← ih]
    exact lookup_putMember m.1 m.2 _ k

/-! ## The order of keys -/

/-- The key of a member comes before that of another. -/
def Before (a b : String × Json) : Prop :=
  Text.ordered a.1.toList b.1.toList = true ∧ a.1 ≠ b.1

theorem Before.trans {a b c : String × Json} (h : Before a b) (h' : Before b c) : Before a c := by
  refine ⟨Text.ordered_trans h.1 h'.1, fun heq => h.2 ?_⟩
  have hba : Text.ordered b.1.toList a.1.toList = true := heq ▸ h'.1
  exact String.toList_injective (Text.ordered_antisymm h.1 hba)

instance : Std.Irrefl Before := ⟨fun _ h => h.2 rfl⟩

instance : Std.Antisymm Before := ⟨fun _ _ h h' =>
  absurd (String.toList_injective (Text.ordered_antisymm h.1 h'.1)) h.2⟩

/-- The members come in ascending order of their keys, each key once. -/
def Ascending (members : List (String × Json)) : Prop := members.Pairwise Before

theorem mem_putMember {m : String × Json} (h : m ∈ putMember key value members) :
    m = (key, value) ∨ m ∈ members := by
  induction members with
  | nil => exact Or.inl (List.mem_singleton.mp h)
  | cons n ns ih =>
    rw [putMember] at h
    split at h
    · rcases List.mem_cons.mp h with h | h
      · exact Or.inl h
      · exact Or.inr (List.mem_cons_of_mem _ h)
    · split at h
      · exact List.mem_cons.mp h
      · rcases List.mem_cons.mp h with h | h
        · exact Or.inr (h ▸ List.mem_cons_self)
        · exact (ih h).imp_right (List.mem_cons_of_mem _)

theorem ascending_putMember (h : Ascending members) (key : String) (value : Json) :
    Ascending (putMember key value members) := by
  induction members with
  | nil => exact List.pairwise_singleton ..
  | cons m ms ih =>
    obtain ⟨j, v⟩ := m
    obtain ⟨hj, hms⟩ := List.pairwise_cons.mp h
    rw [putMember]
    split
    · rename_i heq
      subst heq
      exact .cons hj hms
    · rename_i hne
      split
      · rename_i hle
        have hlt : Before (key, value) (j, v) := ⟨hle, hne⟩
        refine .cons (fun a ha => ?_) h
        rcases List.mem_cons.mp ha with rfl | ha
        · exact hlt
        · exact hlt.trans (hj a ha)
      · rename_i hle
        have hlt : Before (j, v) (key, value) :=
          ⟨(Text.ordered_total _ _).resolve_left hle, Ne.symm hne⟩
        refine .cons (fun a ha => ?_) (ih hms)
        rcases mem_putMember ha with rfl | ha
        · exact hlt
        · exact hj a ha

/-- **An object has its members in order**, and none that was not given. -/
theorem exists_mkObject (members : List (String × Json)) :
    ∃ ms, mkObject members = .object ms ∧ Ascending ms ∧ ms ⊆ members := by
  refine ⟨_, rfl, ?_⟩
  induction members using List.reverseRecOn with
  | nil => exact ⟨.nil, List.nil_subset _⟩
  | append_singleton ms m ih =>
    obtain ⟨hasc, hsub⟩ := ih
    rw [List.foldl_append]
    refine ⟨ascending_putMember hasc m.1 m.2, fun n hn => ?_⟩
    rcases mem_putMember hn with rfl | hn
    · exact List.mem_append_right _ List.mem_cons_self
    · exact List.mem_append_left _ (hsub hn)

theorem Ascending.nodup (h : Ascending members) : (members.map Prod.fst).Nodup :=
  List.pairwise_map.mpr (h.imp fun hab => hab.2)

theorem lookup_eq_none {α : Type} {members : List (String × α)} {k : String}
    (h : k ∉ members.map Prod.fst) : members.lookup k = none := by
  rw [List.lookup_eq_none_iff]
  intro m hm
  rw [bne_iff_ne]
  exact fun heq => h (heq ▸ List.mem_map_of_mem hm)

theorem mem_iff_lookup {α : Type} {members : List (String × α)} (h : (members.map Prod.fst).Nodup)
    {m : String × α} : m ∈ members ↔ members.lookup m.1 = some m.2 := by
  induction members with
  | nil => simp
  | cons n ns ih =>
    obtain ⟨j, v⟩ := n
    obtain ⟨k, w⟩ := m
    obtain ⟨hj, hns⟩ := List.nodup_cons.mp h
    rw [List.mem_cons, lookup_cons_if, ih hns, Prod.mk.injEq]
    by_cases hk : k = j
    · subst hk
      rw [if_pos rfl, lookup_eq_none hj, Option.some.injEq]
      simp [eq_comm]
    · rw [if_neg hk]
      simp [hk]

/-- Objects that hold the same **under every key** are equal. -/
theorem mkObject_congr {ms ns : List (String × Json)}
    (h : ∀ k, (mkObject ms).get? k = (mkObject ns).get? k) : mkObject ms = mkObject ns := by
  obtain ⟨as, has, hasc, _⟩ := exists_mkObject ms
  obtain ⟨bs, hbs, hasc', _⟩ := exists_mkObject ns
  rw [has, hbs] at h ⊢
  have hmem : ∀ m, m ∈ as ↔ m ∈ bs := by
    intro m
    have hkey : as.lookup m.1 = bs.lookup m.1 := h m.1
    rw [mem_iff_lookup hasc.nodup, mem_iff_lookup hasc'.nodup, hkey]
  rw [List.Pairwise.eq_of_mem_iff hasc hasc' hmem]

/-- Where each key stands once it is the same to look from either end. -/
theorem lookup_reverse (h : (members.map Prod.fst).Nodup) (k : String) :
    members.reverse.lookup k = members.lookup k := by
  induction members with
  | nil => rfl
  | cons m ms ih =>
    obtain ⟨j, v⟩ := m
    obtain ⟨hj, hms⟩ := List.nodup_cons.mp h
    rw [List.reverse_cons, List.lookup_append, ih hms, lookup_cons_if, lookup_cons_if]
    by_cases hk : k = j
    · rw [lookup_eq_none (hk ▸ hj), if_pos hk, if_pos hk, Option.none_or]
    · rw [if_neg hk, if_neg hk, List.lookup_nil, Option.or_none]

/-- Under a key is the value that was given for it or nothing, where each key is given once. -/
theorem get?_mkObject? {given : List (String × Option Json)} (h : (given.map Prod.fst).Nodup)
    (k : String) : (mkObject? given).get? k = (given.lookup k).join := by
  have hkeys : ((given.filterMap fun g => g.2.map (g.1, ·)).map Prod.fst).Sublist
      (given.map Prod.fst) := by
    clear h
    induction given with
    | nil => exact .slnil
    | cons g gs ih =>
      obtain ⟨j, v⟩ := g
      cases v with
      | none => exact ih.cons j
      | some v => exact ih.cons_cons j
  rw [mkObject?, get?_mkObject, lookup_reverse (h.sublist hkeys)]
  clear hkeys
  induction given with
  | nil => rfl
  | cons g gs ih =>
    obtain ⟨j, v⟩ := g
    obtain ⟨hj, hgs⟩ := List.nodup_cons.mp h
    rw [lookup_cons_if]
    cases v with
    | none =>
      rw [List.filterMap_cons_none rfl, ih hgs]
      by_cases hk : k = j
      · rw [if_pos hk, lookup_eq_none (hk ▸ hj)]
        rfl
      · rw [if_neg hk]
    | some v =>
      show ((j, v) :: gs.filterMap _).lookup k = _
      rw [lookup_cons_if, ih hgs]
      by_cases hk : k = j
      · rw [if_pos hk, if_pos hk]
        rfl
      · rw [if_neg hk, if_neg hk]

end Json

end SiteAssist
