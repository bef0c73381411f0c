import SiteAssist.Proofs.Json.Members
import SiteAssist.Proofs.Outcome
import SiteAssist.Server.Message
import SiteAssist.Server.Reply

/-!
# Items as JSON

An item is sent with the members that are given for it (`itemGiven`).  When the client sends it back, it is
read in the shape of the protocol, member by member, and **nothing of it is lost** (`read_itemJson`).  To put
a documentation into it is to send it documented (`documentedItem_itemJson`).
-/

namespace SiteAssist.Server

/-! ## Reading an object -/

namespace Item

variable {name : String} {slots : List Slot} {members : List (String × Json)}

/-- The shape of a member gives it back as it is, and it is not `null`. -/
def Exact (slots : List Slot) (m : String × Json) : Prop :=
  ∃ slot, slots.find? (·.name == m.1) = some slot ∧ m.2.isNull = false ∧ slot.shape m.2 = .ok m.2

theorem keep_of_exact {m : String × Json} (h : Exact slots m) : keep slots m = .ok (some m) := by
  obtain ⟨slot, hslot, hnull, hshape⟩ := h
  rw [keep, hslot]
  simp [hnull, hshape, Except.map]

theorem mapM_keep (h : ∀ m ∈ members, Exact slots m) :
    members.mapM (keep slots) = .ok (members.map some) := by
  rw [mapM_eq_ok_iff, List.forall₂_map_right_iff, List.forall₂_same]
  exact fun m hm => keep_of_exact (h m hm)

theorem filterMap_some (members : List (String × Json)) : (members.map some).filterMap id = members := by
  rw [List.filterMap_map]
  exact List.filterMap_some

theorem object_eq (h : ∀ m ∈ members, Exact slots m) :
    object name slots (.object members) =
      (slots.find? fun slot => slot.needed && (members.lookup slot.name).isNone).elim
        (.ok (.object members)) fun slot => .error (.missingField slot.name) := by
  simp only [object, mapM_keep h, bind, Except.bind, filterMap_some]
  cases slots.find? fun slot => slot.needed && (members.lookup slot.name).isNone <;> rfl

/-- An object of such members is read as it is, if none is missing. -/
theorem object_of_exact (h : ∀ m ∈ members, Exact slots m)
    (hneeded : ∀ slot ∈ slots, slot.needed = true → members.lookup slot.name ≠ none) :
    object name slots (.object members) = .ok (.object members) := by
  have hthere : (slots.find? fun slot => slot.needed && (members.lookup slot.name).isNone) = none := by
    rw [List.find?_eq_none]
    intro slot hslot habsent
    obtain ⟨hneed, hnone⟩ := Bool.and_eq_true_iff.mp habsent
    exact hneeded slot hslot hneed (Option.isNone_iff_eq_none.mp hnone)
  rw [object_eq h, hthere, Option.elim_none]

/-- What is read of an object of such members is the object. -/
theorem eq_of_object {v : Json} (h : ∀ m ∈ members, Exact slots m)
    (hread : object name slots (.object members) = .ok v) : v = .object members := by
  rw [object_eq h] at hread
  generalize slots.find? _ = missing at hread
  cases missing with
  | none =>
    cases hread
    rfl
  | some slot => cases hread

end Item

/-! ## The items of the server -/

/-- What is given for the members of an item, each under its name. -/
def itemGiven (c : Completion) : List (String × Option Json) :=
  let edit := c.replaceRange.bind fun s => c.insertText.map (editJson s)
  let snippet : Option Json := if c.insertFormat = .snippet then some (.nat 2) else none
  [("label", some (.string c.label)), ("kind", some (.nat (kindNumber c.kind))),
   ("detail", c.detail.map .string), ("documentation", c.documentation.map markdown),
   ("insertText", if edit.isSome then none else c.insertText.map .string),
   ("textEdit", edit), ("insertTextFormat", snippet),
   ("filterText", c.filterText.map .string), ("data", c.data)]

theorem get?_itemJson (c : Completion) (key : String) :
    (itemJson c).get? key = ((itemGiven c).lookup key).join := by
  refine Json.get?_mkObject? ?_ key
  show ["label", "kind", "detail", "documentation", "insertText", "textEdit", "insertTextFormat",
    "filterText", "data"].Nodup
  decide

theorem exact_text {name : String} {o : Option String} {v : Json}
    (hslot : ∃ needed, Item.slots.find? (·.name == name) = some ⟨name, needed, Item.text⟩)
    (hv : v ∈ o.map Json.string) : Item.Exact Item.slots (name, v) := by
  obtain ⟨needed, hslot⟩ := hslot
  obtain ⟨t, -, rfl⟩ := Option.map_eq_some_iff.mp hv
  exact ⟨_, hslot, rfl, rfl⟩

/-- What is given for the members of an item is read as it is. -/
theorem exact_itemGiven {c : Completion} (hdata : ∀ d ∈ c.data, d.isNull = false)
    (hrange : c.replaceRange = none) :
    ∀ g ∈ itemGiven c, ∀ v ∈ g.2, Item.Exact Item.slots (g.1, v) := by
  simp only [itemGiven, hrange, Option.bind_none, Option.isSome_none, Bool.false_eq_true, if_false,
    List.forall_mem_cons, List.not_mem_nil, false_imp_iff, implies_true, and_true]
  refine ⟨?_, ?_, fun v hv => exact_text ⟨false, rfl⟩ hv, ?_,
    fun v hv => exact_text ⟨false, rfl⟩ hv, nofun, ?_, fun v hv => exact_text ⟨false, rfl⟩ hv, ?_⟩
  · rintro v ⟨⟩
    exact ⟨⟨"label", true, Item.text⟩, rfl, rfl, rfl⟩
  · rintro v ⟨⟩
    refine ⟨⟨"kind", false, Item.integer⟩, rfl, rfl, ?_⟩
    cases c.kind <;> rfl
  · rintro v hv
    obtain ⟨t, -, rfl⟩ := Option.map_eq_some_iff.mp hv
    exact ⟨⟨"documentation", false, Item.documentation⟩, rfl, rfl, rfl⟩
  · intro v hv
    split at hv
    · cases hv
      exact ⟨⟨"insertTextFormat", false, Item.integer⟩, rfl, rfl, rfl⟩
    · cases hv
  · exact fun v hv => ⟨⟨"data", false, Json.Decoder.any⟩, rfl, hdata v hv, rfl⟩

/-- An item that replaces nothing is read **as it was sent**. -/
theorem read_itemJson {c : Completion} (hdata : ∀ d ∈ c.data, d.isNull = false)
    (hrange : c.replaceRange = none) : Item.read (itemJson c) = .ok (itemJson c) := by
  obtain ⟨ms, hms, -, hsub⟩ := Json.exists_mkObject ((itemGiven c).filterMap fun g => g.2.map (g.1, ·))
  have hitem : itemJson c = .object ms := hms
  have hlabel : (Json.object ms).get? "label" = some (.string c.label) := by
    rw [← hitem, get?_itemJson]
    rfl
  rw [hitem]
  refine Item.object_of_exact (fun m hm => ?_) ?_
  · obtain ⟨g, hg, hv⟩ := List.mem_filterMap.mp (hsub hm)
    obtain ⟨v, hgiven, rfl⟩ := Option.map_eq_some_iff.mp hv
    exact exact_itemGiven hdata hrange g hg v hgiven
  · have hneeded : ∀ slot ∈ Item.slots, slot.needed = true → slot.name = "label" := by simp [Item.slots]
    intro slot hslot hneed hnone
    rw [hneeded slot hslot hneed] at hnone
    exact Option.some_ne_none _ (hlabel.symm.trans hnone)

/-- To put a documentation into an item **is to send it documented**. -/
theorem documentedItem_itemJson (c : Completion) (text : String) :
    documentedItem (itemJson c) text = itemJson { c with documentation := some text } := by
  obtain ⟨ms, hms, hasc, -⟩ := Json.exists_mkObject ((itemGiven c).filterMap fun g => g.2.map (g.1, ·))
  have hitem : itemJson c = .object ms := hms
  have hput : documentedItem (itemJson c) text = .mkObject (ms ++ [("documentation", markdown text)]) := by
    rw [hitem]
    rfl
  rw [hput]
  refine Json.mkObject_congr fun key => ?_
  have hgiven : ((itemGiven { c with documentation := some text }).lookup key).join =
      if key = "documentation" then some (markdown text)
      else ((itemGiven c).lookup key).join := by
    simp only [itemGiven, Json.lookup_cons_if]
    by_cases hkey : key = "documentation"
    · subst hkey
      simp
    · simp only [hkey, if_false]
  have hdocumented : (itemJson { c with documentation := some text }).get? key =
      if key = "documentation" then some (markdown text) else (itemJson c).get? key := by
    rw [get?_itemJson, get?_itemJson, hgiven]
  refine Eq.trans ?_ hdocumented.symm
  rw [Json.get?_mkObject, List.reverse_concat, Json.lookup_cons_if, Json.lookup_reverse hasc.nodup, hitem]
  rfl

end SiteAssist.Server
