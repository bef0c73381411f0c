import SiteAssist.Proofs.Json.Record
import SiteAssist.Settings

/-!
# The ways of writing settings

Settings are written as an object whose members come in any order.  Under a key of theirs is a value, or
nothing if the value is the default (`Json.Gives`); what is under other keys does not count.  The same
holds of the object of each tool.

* `ToolSettings.WrittenAs`, `Settings.WrittenAs`: the members are **one of the ways of writing** them.
* `Settings.ofJson_written`, `Settings.ofJson_wrapped`: every way of writing settings is read back as
  these settings, bare or under `drupal`.
-/

namespace SiteAssist

namespace Json

variable {α σ : Type} {members : List (String × Json)} {key : String} {Writes : α → Json → Prop} {default a : α}

/-- Under the key is the value, or nothing if it is the default. -/
def Gives (members : List (String × Json)) (key : String) (Writes : α → Json → Prop) (default a : α) : Prop :=
  (∃ v, (key, v) ∈ members ∧ Writes a v) ∨ key ∉ members.map Prod.fst ∧ a = default

namespace Decoder

variable {item : Decoder α} {fields : List (Field σ)} {get : σ → α} {start s : σ}

/-- What is given under a key can be decoded, since nothing else is under it. -/
theorem exists_decode_of_gives (hnodup : (members.map Prod.fst).Nodup)
    (h : Gives members key Writes default a) (hitem : ∀ v, Writes a v → item v = .ok a) {x : Json}
    (hx : (key, x) ∈ members) : ∃ b, item x = .ok b := by
  rcases h with ⟨v, hv, hwrites⟩ | ⟨habsent, _⟩
  · have hfirst : members.lookup key = some v := (mem_iff_lookup hnodup).mp hv
    have hsecond : members.lookup key = some x := (mem_iff_lookup hnodup).mp hx
    obtain rfl := Option.some.inj (hfirst.symm.trans hsecond)
    exact ⟨a, hitem v hwrites⟩
  · exact absurd (List.mem_map_of_mem hx) habsent

/-- A slot that is the default at the start ends up with what is given. -/
theorem Slot.of_gives (hs : Slot fields key item id get) (hnodup : (members.map Prod.fst).Nodup)
    (h : Gives members key Writes default a) (hitem : ∀ v, Writes a v → item v = .ok a)
    (hstart : get start = default) (hfound : fieldsOfMembers fields start members = .ok s) :
    get s = a := by
  rcases h with ⟨v, hv, hwrites⟩ | ⟨habsent, rfl⟩
  · exact hs.eq_of_mem hfound hnodup hv (hitem v hwrites)
  · rw [hs.of_notMem habsent hfound, hstart]

/-- A field that may be left out. -/
def defaultedField (name : String) (item : Decoder α) (set : σ → α → σ) : Field σ :=
  { name, defaulted := true, decode := fun s v => (item v).map (set s) }

theorem exists_defaultedField {set : σ → α → σ} (h : ∀ x, (key, x) ∈ members → ∃ b, item x = .ok b) :
    ∀ x, ((defaultedField key item set).name, x) ∈ members →
      ∀ s, ∃ s', (defaultedField key item set).decode s x = .ok s' := by
  intro x hx s
  obtain ⟨b, hb⟩ := h x hx
  exact ⟨set s b, map_eq_ok_iff.mpr ⟨b, hb, rfl⟩⟩

end Decoder

end Json

open Json (Gives)
open Json.Decoder

/-! ## One tool -/

namespace ToolSettings

variable {t : ToolSettings} {members : List (String × Json)}

/-- The members are one of the ways of writing the settings of a tool. -/
structure WrittenAs (t : ToolSettings) (members : List (String × Json)) : Prop where
  once : (members.map Prod.fst).Nodup
  enabled : Gives members "enabled" (fun b v => v = .bool b) false t.enabled
  executablePath : Gives members "executablePath" (fun p v => v = .string p) "" t.executablePath
  args : Gives members "args" (fun as v => v = Json.strings as) [] t.args

/-- The fields of a tool in their order. -/
def fields : List (Json.Decoder.Field ToolSettings) :=
  [defaultedField "enabled" bool fun t x => { t with enabled := x },
   defaultedField "executablePath" string fun t x => { t with executablePath := x },
   defaultedField "args" (list string) fun t x => { t with args := x }]

theorem slot_enabled : Slot fields "enabled" bool id (·.enabled) := by
  constructor <;> simp [fields, defaultedField, map_eq_ok_iff, -Bool.exists_bool, -Bool.forall_bool]

theorem slot_executablePath : Slot fields "executablePath" string id (·.executablePath) := by
  constructor <;> simp [fields, defaultedField, map_eq_ok_iff, -Bool.exists_bool, -Bool.forall_bool]

theorem slot_args : Slot fields "args" (list string) id (·.args) := by
  constructor <;> simp [fields, defaultedField, map_eq_ok_iff, -Bool.exists_bool, -Bool.forall_bool]

theorem list_string_strings (texts : List String) : list string (Json.strings texts) = .ok texts := by
  rw [list_eq_ok_iff]
  refine ⟨_, rfl, ?_⟩
  rw [List.forall₂_map_left_iff, List.forall₂_same]
  exact fun _ _ => rfl

/-- The settings of a tool are read back from every way of writing them. -/
theorem decode_written (h : WrittenAs t members) : decode (.object members) = .ok t := by
  have hbool : ∀ v, v = .bool t.enabled → bool v = .ok t.enabled := by
    rintro v rfl
    rfl
  have hpath : ∀ v, v = .string t.executablePath → string v = .ok t.executablePath := by
    rintro v rfl
    rfl
  have hargs : ∀ v, v = Json.strings t.args → list string v = .ok t.args := by
    rintro v rfl
    exact list_string_strings t.args
  have hall : ∀ f ∈ fields, ∀ x, (f.name, x) ∈ members → ∀ s, ∃ s', f.decode s x = .ok s' := by
    simp only [fields, List.forall_mem_cons]
    exact ⟨exists_defaultedField fun _ => exists_decode_of_gives h.once h.enabled hbool,
      exists_defaultedField fun _ => exists_decode_of_gives h.once h.executablePath hpath,
      exists_defaultedField fun _ => exists_decode_of_gives h.once h.args hargs, nofun⟩
  obtain ⟨found, hfound⟩ := exists_fieldsOfMembers hall {}
  have henabled := slot_enabled.of_gives h.once h.enabled hbool rfl hfound
  have hexecutable := slot_executablePath.of_gives h.once h.executablePath hpath rfl hfound
  have hargs' := slot_args.of_gives h.once h.args hargs rfl hfound
  have hdecode : decode (.object members) = fieldsOfMembers fields {} members := rfl
  rw [hdecode, hfound]
  obtain ⟨enabled, executablePath, args⟩ := found
  cases henabled
  cases hexecutable
  cases hargs'
  rfl

end ToolSettings

/-! ## All tools -/

namespace Settings

variable {s : Settings} {members : List (String × Json)}

/-- The value is an object that writes the settings of a tool. -/
def WritesTool (t : ToolSettings) (v : Json) : Prop := ∃ ms, v = .object ms ∧ t.WrittenAs ms

/-- The members are one of the ways of writing settings. -/
structure WrittenAs (s : Settings) (members : List (String × Json)) : Prop where
  once : (members.map Prod.fst).Nodup
  tools : ∀ tool, Gives members tool.name WritesTool {} (s.tool tool)

/-- The settings with those of one tool replaced. -/
def withTool (s : Settings) (tool : Tool) (t : ToolSettings) : Settings :=
  match tool with
  | .phpcs => { s with phpcs := t }
  | .phpcbf => { s with phpcbf := t }
  | .phpstan => { s with phpstan := t }
  | .drush => { s with drush := t }

/-- The field of a tool. -/
def toolField (tool : Tool) : Json.Decoder.Field Settings :=
  defaultedField tool.name ToolSettings.decode fun s t => s.withTool tool t

theorem tool_withTool (s : Settings) (tool other : Tool) (t : ToolSettings) :
    (s.withTool tool t).tool other = if other = tool then t else s.tool other := by
  cases tool <;> cases other <;> rfl

theorem ext_tool {s' : Settings} (h : ∀ tool, s.tool tool = s'.tool tool) : s = s' := by
  obtain ⟨phpcs, phpcbf, phpstan, drush⟩ := s
  obtain ⟨phpcs', phpcbf', phpstan', drush'⟩ := s'
  cases h .phpcs
  cases h .phpcbf
  cases h .phpstan
  cases h .drush
  rfl

theorem name_inj {tool other : Tool} (h : tool.name = other.name) : tool = other := by
  revert h
  cases tool <;> cases other <;> decide

/-- The fields of the tools in their order. -/
def fields : List (Json.Decoder.Field Settings) := Tool.all.map toolField

theorem mem_all (tool : Tool) : tool ∈ Tool.all := by cases tool <;> decide

theorem slot_tool (tool : Tool) : Slot fields tool.name ToolSettings.decode id (·.tool tool) := by
  constructor
  · intro f hf hname s v s' hdec
    obtain ⟨other, -, rfl⟩ := List.mem_map.mp hf
    obtain rfl : other = tool := name_inj hname
    obtain ⟨t, ht, rfl⟩ := map_eq_ok_iff.mp hdec
    exact ⟨t, ht, (tool_withTool s other other t).trans (if_pos rfl)⟩
  · intro f hf hname s v s' hdec
    obtain ⟨other, -, rfl⟩ := List.mem_map.mp hf
    obtain ⟨t, ht, rfl⟩ := map_eq_ok_iff.mp hdec
    have hne : tool ≠ other := fun heq => hname (congrArg Tool.name heq.symm)
    exact (tool_withTool s other tool t).trans (if_neg hne)
  · rw [fields, List.map_map]
    exact List.mem_map_of_mem (mem_all tool)

theorem decode_writesTool {t : ToolSettings} : ∀ v, WritesTool t v → ToolSettings.decode v = .ok t := by
  rintro _ ⟨ms, rfl, h⟩
  exact ToolSettings.decode_written h

/-- Settings are read back from every way of writing them. -/
theorem decode_written (h : WrittenAs s members) : decode (.object members) = .ok s := by
  have hall : ∀ f ∈ fields, ∀ x, (f.name, x) ∈ members → ∀ s, ∃ s', f.decode s x = .ok s' := by
    intro f hf
    obtain ⟨tool, -, rfl⟩ := List.mem_map.mp hf
    exact exists_defaultedField fun _ => exists_decode_of_gives h.once (h.tools tool) decode_writesTool
  obtain ⟨found, hfound⟩ := exists_fieldsOfMembers hall {}
  have hdecode : decode (.object members) = fieldsOfMembers fields {} members := rfl
  have hdefault (tool : Tool) : ({} : Settings).tool tool = {} := by cases tool <;> rfl
  rw [hdecode, hfound]
  exact congrArg Except.ok (ext_tool fun tool =>
    (slot_tool tool).of_gives h.once (h.tools tool) decode_writesTool (hdefault tool) hfound)

/-- Settings **stand for themselves** in an object without the key `drupal`. -/
theorem ofJson_written (h : WrittenAs s members) (hbare : "drupal" ∉ members.map Prod.fst) :
    ofJson (.object members) = .ok s := by
  have hget : (Json.object members).get? "drupal" = none := Json.lookup_eq_none hbare
  rw [ofJson, hget]
  exact decode_written h

/-- Settings **under the key `drupal`** stand for themselves, whatever is under the other keys. -/
theorem ofJson_wrapped (h : WrittenAs s members) {outer : List (String × Json)}
    (hnodup : (outer.map Prod.fst).Nodup) (hmem : ("drupal", .object members) ∈ outer) :
    ofJson (.object outer) = .ok s := by
  have hget : (Json.object outer).get? "drupal" = some (.object members) :=
    (Json.mem_iff_lookup hnodup).mp hmem
  rw [ofJson, hget]
  exact decode_written h

end Settings

end SiteAssist
