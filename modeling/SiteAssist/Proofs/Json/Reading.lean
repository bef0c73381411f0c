import Mathlib.Data.List.ReduceOption
import SiteAssist.Proofs.Json.Members
import SiteAssist.Proofs.Json.Skipping

/-!
# Readers and what they read

A reader takes the texts of one shape and no others (`Reads`).  The shape of what is put together follows
from those of its parts: of lists (`Reads.list`), of records from their fields (`Takes.record`), and of a
whole text (`Reads.run_eq_ok_iff`).

* `recordMembers_sound`, `recordMembers_complete`: the members of an object, **known and unknown ones in any
  order**; what is found is taken into the record in the order of the text.
* `recordItems_sound`, `recordItems_complete`: the items of an array, in the order of the fields.
-/

namespace SiteAssist.Json

open Reader

variable {α β σ : Type} {s t rest : List Char} {first : Bool} {depth : Nat}

/-- At that depth a reader takes, behind blanks, the texts that its values are written as and no
others. -/
structure Reads (r : Reader α) (Text : α → List Char → Prop) (depth : Nat) : Prop where
  starts {a : α} {t : List Char} : Text a t → Starts t
  sound {s : List Char} {a : α} {rest : List Char} : r depth s = .ok (a, rest) →
    ∃ u t, Blank u ∧ Text a t ∧ s = u ++ (t ++ rest)
  complete {u t : List Char} {a : α} {rest : List Char} : Blank u → Text a t → Ends rest →
    r depth (u ++ (t ++ rest)) = .ok (a, rest)

theorem reads_skip : Reads skip (fun _ => ValueText) depth where
  starts := ValueText.starts
  sound h := by
    obtain ⟨r, hskip, heq⟩ := map_eq_ok_iff.mp h
    cases heq
    exact (skips _).value hskip
  complete {u t a rest} hu ht hrest := by
    refine map_eq_ok_iff.mpr ⟨rest, (passes _).value hu ht hrest ?_, rfl⟩
    simp only [List.length_append]
    omega

theorem reads_string : Reads Reader.string StringText depth where
  starts := by
    rintro a _ ⟨body, -, rfl⟩
    exact ⟨_, _, rfl, by decide⟩
  sound h := by
    unfold Reader.string at h
    split at h
    · next heq =>
      obtain ⟨-, u, hu, rfl⟩ := spaces_eq_cons_iff.mp heq
      obtain ⟨body, hbody, rfl⟩ := stringRest_eq_ok_iff.mp h
      exact ⟨u, _, hu, ⟨body, hbody, rfl⟩, by simp⟩
    · cases h
  complete hu ht _ := by
    obtain ⟨body, hbody, rfl⟩ := ht
    rw [Reader.string, spaces_append hu, List.cons_append, spaces_cons (by decide)]
    exact stringRest_eq_ok_iff.mpr ⟨body, hbody, by simp⟩

section Readers

variable {r : Reader α} {Text : α → List Char → Prop}

theorem Reads.congr (h : Reads r Text depth) {Text' : α → List Char → Prop}
    (heq : ∀ a t, Text a t ↔ Text' a t) :
    Reads r Text' depth := by
  obtain rfl : Text = Text' := funext₂ fun a t => propext (heq a t)
  exact h

theorem Reads.map (h : Reads r Text depth) (f : α → β) :
    Reads (fun d s => (r d s).map fun (a, rest) => (f a, rest)) (fun b t => ∃ a, Text a t ∧ b = f a)
      depth where
  starts := by
    rintro _ t ⟨a, ha, -⟩
    exact h.starts ha
  sound hread := by
    obtain ⟨⟨a, r⟩, ha, heq⟩ := map_eq_ok_iff.mp hread
    cases heq
    obtain ⟨u, t, hu, ht, rfl⟩ := h.sound ha
    exact ⟨u, t, hu, ⟨a, ht, rfl⟩, rfl⟩
  complete := by
    rintro u t _ rest hu ⟨a, ha, rfl⟩ hrest
    exact map_eq_ok_iff.mpr ⟨(a, rest), h.complete hu ha hrest, rfl⟩

theorem Reads.demand (h : Reads r Text depth) (f : α → Option β) :
    Reads (demand r f) (fun b t => ∃ a, Text a t ∧ f a = some b) depth where
  starts := by
    rintro _ t ⟨a, ha, -⟩
    exact h.starts ha
  sound hread := by
    unfold Reader.demand at hread
    split at hread
    · cases hread
    · next a r ha =>
      split at hread
      · next b hb =>
        cases hread
        obtain ⟨u, t, hu, ht, rfl⟩ := h.sound ha
        exact ⟨u, t, hu, ⟨a, ht, hb⟩, rfl⟩
      · cases hread
  complete := by
    rintro u t b rest hu ⟨a, ha, hb⟩ hrest
    simp only [Reader.demand, h.complete hu ha hrest, hb]

/-! ## Lists -/

theorem listItems_sound (h : Reads r Text depth) {fuel : Nat} {as : List α}
    (hread : listItems r depth fuel first s = .ok (as, rest)) :
    ∃ body, Entries ']' Text first as body ∧ s = body ++ rest := by
  induction fuel generalizing first s as with
  | zero => cases hread
  | succ fuel ih =>
    rw [listItems] at hread
    obtain ⟨⟨more, r'⟩, hnext, hitems⟩ := bind_eq_ok_iff.mp hread
    cases more with
    | false =>
      obtain ⟨u, r', hu, rfl, rfl⟩ := nextItem_eq_false_iff.mp hnext
      cases hitems
      exact ⟨u ++ [']'], .done hu, by simp⟩
    | true =>
      obtain ⟨lead, hlead, hstarts, rfl⟩ := nextItem_eq_true_iff.mp hnext
      obtain ⟨⟨a, r'⟩, ha, hrest⟩ := bind_eq_ok_iff.mp hitems
      obtain ⟨⟨as, r''⟩, has, heq⟩ := bind_eq_ok_iff.mp hrest
      cases heq
      obtain ⟨u, t, hu, ht, rfl⟩ := h.sound ha
      obtain rfl := hstarts.eq_nil_of_blank hu
      obtain ⟨body, hbody, rfl⟩ := ih has
      exact ⟨lead ++ (t ++ body), .entry hlead ht hbody, by simp⟩

theorem listItems_complete (h : Reads r Text depth) {as : List α} {body : List Char}
    (hbody : Entries ']' Text first as body) {fuel : Nat} (hfuel : as.length < fuel) :
    listItems r depth fuel first (body ++ rest) = .ok (as, rest) := by
  induction hbody generalizing fuel with
  | done hu =>
    obtain ⟨fuel, rfl⟩ : ∃ k, fuel = k + 1 := Nat.exists_eq_succ_of_ne_zero (by omega)
    rw [listItems, nextItem_eq_false_iff.mpr ⟨_, rest, hu, by simp, rfl⟩]
    rfl
  | @entry _ a as lead t s hlead ht hs ih =>
    obtain ⟨fuel, rfl⟩ : ∃ k, fuel = k + 1 := Nat.exists_eq_succ_of_ne_zero (by omega)
    have hends : Ends (s ++ rest) := hs.ends (by simp)
    have ha := h.complete (List.forall_mem_nil _) ht hends
    rw [List.nil_append] at ha
    rw [listItems, nextItem_eq_true_iff.mpr ⟨lead, hlead, (h.starts ht).append (s := s ++ rest), by simp⟩]
    change (r depth (t ++ (s ++ rest)) >>= _) = _
    rw [ha]
    change (listItems r depth fuel false (s ++ rest) >>= _) = _
    rw [ih (Nat.lt_of_succ_lt_succ hfuel)]
    rfl

theorem Reads.list (h : Reads r Text depth) (hdepth : 0 < depth) :
    Reads (list r) (ListText Text) (depth + 1) where
  starts := by
    rintro _ _ ⟨body, -, rfl⟩
    exact ⟨_, _, rfl, by decide⟩
  sound hread := by
    unfold Reader.list at hread
    split at hread
    · next heq =>
      rw [if_neg (by omega)] at hread
      obtain ⟨-, u, hu, rfl⟩ := spaces_eq_cons_iff.mp heq
      obtain ⟨body, hbody, rfl⟩ := listItems_sound h hread
      exact ⟨u, _, hu, ⟨body, hbody, rfl⟩, rfl⟩
    · cases hread
  complete := by
    rintro u _ as rest hu ⟨body, hbody, rfl⟩ -
    have hlength := hbody.length_lt fun _ _ => h.starts
    rw [Reader.list, spaces_append hu, List.cons_append, spaces_cons (by decide)]
    change (if _ then _ else _) = _
    rw [if_neg (by omega)]
    refine listItems_complete h hbody ?_
    rw [List.length_append]
    omega

/-- A whole text is read as a value exactly where it is **a text of it between blanks**. -/
theorem Reads.run_eq_ok_iff (h : Reads r Text maxDepth) {text : String} {a : α} :
    Reader.run r text = .ok a ↔ ∃ u t v, Blank u ∧ Text a t ∧ Blank v ∧ text.toList = u ++ (t ++ v) := by
  constructor
  · intro hread
    unfold Reader.run at hread
    split at hread
    · cases hread
    · next a v ha =>
      split at hread
      · next hend =>
        cases hread
        obtain ⟨u, t, hu, ht, heq⟩ := h.sound ha
        exact ⟨u, t, v, hu, ht, blank_iff.mpr (List.isEmpty_iff.mp hend), heq⟩
      · cases hread
  · rintro ⟨u, t, v, hu, ht, hv, heq⟩
    have hends : Ends v := fun c hc => List.mem_append_left [',', ']', '\x7d'] (hv c (List.mem_of_mem_head? hc))
    simp [Reader.run, heq, h.complete hu ht hends, blank_iff.mp hv]

end Readers

/-! ## Records -/

section Records

variable {fields : List (Reader.Field σ)} {Text : String → α → List Char → Prop} {take : σ → String × α → σ}
  {state out : σ}

/-- Each field reads what may stand under its name, and takes it into the record. -/
def Takes (fields : List (Reader.Field σ)) (Text : String → α → List Char → Prop) (take : σ → String × α → σ)
    (depth : Nat) : Prop :=
  ∀ field ∈ fields, ∀ state, Reads (field.read state)
    (fun next t => ∃ a, Text field.name a t ∧ next = take state (field.name, a)) depth

theorem FieldText.starts {names : List String} {found : Option (String × α)}
    (h : FieldText names Text found t) : Starts t := by
  cases h with
  | known _ ht | other _ ht =>
    cases ht
    exact ⟨_, _, rfl, by decide⟩

/-- What is found in a record stands under its names, each once. -/
theorem RecordText.names {names : List String} {optional : Bool} {found : List (String × α)}
    (h : RecordText names optional Text found t) (hnames : names.Nodup) :
    (found.map Prod.fst).Nodup ∧ ∀ f ∈ found, f.1 ∈ names := by
  cases h with
  | object hs hfound hnodup =>
    refine ⟨hnodup, fun f hf => ?_⟩
    rw [hfound, List.reduceOption_mem_iff] at hf
    obtain ⟨t, ht⟩ := hs.exists_text hf
    cases ht with
    | known hname _ => exact hname
  | array _ hbegin _ =>
    exact ⟨hnames.sublist hbegin.sublist, fun f hf => hbegin.subset (List.mem_map_of_mem hf)⟩

theorem notMem_names_iff {key : String} :
    fields.find? (·.name == key) = none ↔ key ∉ fields.map (·.name) := by
  simp [List.find?_eq_none]

theorem recordMembers_sound (h : Takes fields Text take depth) {fuel : Nat} {seen : List String}
    (hread : recordMembers fields depth fuel seen state first s = .ok (out, rest)) :
    ∃ members body, Entries '\x7d' (FieldText (fields.map (·.name)) Text) first members body ∧
      (members.reduceOption.map Prod.fst).Nodup ∧ (∀ f ∈ members.reduceOption, f.1 ∉ seen) ∧
      out = members.reduceOption.foldl take state ∧ s = body ++ rest := by
  induction fuel generalizing seen state first s with
  | zero => cases hread
  | succ fuel ih =>
    rw [recordMembers] at hread
    obtain ⟨⟨key, r⟩, hnext, hmember⟩ := bind_eq_ok_iff.mp hread
    cases key with
    | none =>
      obtain ⟨u, r, hu, rfl, rfl⟩ := (nextMember_eq_none_iff readsKey_stringRest).mp hnext
      cases hmember
      exact ⟨[], u ++ ['\x7d'], .done hu, List.nodup_nil, List.forall_mem_nil _, rfl, by simp⟩
    | some key =>
      obtain ⟨lead, name, u, hlead, hname, hu, rfl⟩ := (nextMember_eq_some_iff readsKey_stringRest).mp hnext
      dsimp only at hmember
      split at hmember
      · next hfind =>
        obtain ⟨⟨_, r'⟩, hvalue, hmembers⟩ := bind_eq_ok_iff.mp hmember
        obtain ⟨v, t, hv, ht, rfl⟩ := reads_skip.sound hvalue
        obtain ⟨members, body, hbody, hnodup, hseen, hout, rfl⟩ := ih hmembers
        exact ⟨none :: members, _, .entry hlead (.other (notMem_names_iff.mp hfind) (.of hname hu hv ht)) hbody,
          hnodup, hseen, hout, by simp⟩
      · next field hfind =>
        split at hmember
        · cases hmember
        · next hkey =>
          obtain ⟨⟨next, r'⟩, hvalue, hmembers⟩ := bind_eq_ok_iff.mp hmember
          obtain ⟨hfield, rfl⟩ := named_of_find? hfind
          obtain ⟨v, t, hv, ⟨a, ht, rfl⟩, rfl⟩ := (h field hfield state).sound hvalue
          obtain ⟨members, body, hbody, hnodup, hseen, hout, rfl⟩ := ih hmembers
          refine ⟨some (field.name, a) :: members, _,
            .entry hlead (.known (List.mem_map_of_mem hfield) (.of hname hu hv ht)) hbody, ?_, ?_, hout, by simp⟩
          · refine List.nodup_cons.mpr ⟨fun hmem => ?_, hnodup⟩
            obtain ⟨f, hf, heq⟩ := List.mem_map.mp hmem
            exact hseen f hf (heq ▸ List.mem_cons_self)
          · exact List.forall_mem_cons.mpr ⟨hkey, fun f hf hmem => hseen f hf (List.mem_cons_of_mem _ hmem)⟩

theorem recordMembers_complete (h : Takes fields Text take depth)
    {members : List (Option (String × α))} {body : List Char}
    (hbody : Entries '\x7d' (FieldText (fields.map (·.name)) Text) first members body)
    (hnodup : (members.reduceOption.map Prod.fst).Nodup) {seen : List String}
    (hseen : ∀ f ∈ members.reduceOption, f.1 ∉ seen) {fuel : Nat} (hfuel : members.length < fuel) :
    recordMembers fields depth fuel seen state first (body ++ rest) =
      .ok (members.reduceOption.foldl take state, rest) := by
  induction hbody generalizing seen state fuel with
  | done hu =>
    obtain ⟨fuel, rfl⟩ : ∃ k, fuel = k + 1 := Nat.exists_eq_succ_of_ne_zero (by omega)
    rw [recordMembers, nextKey, (nextMember_eq_none_iff readsKey_stringRest).mpr ⟨_, rest, hu, by simp, rfl⟩]
    rfl
  | @entry first member members lead t s hlead ht hs ih =>
    obtain ⟨fuel, rfl⟩ : ∃ k, fuel = k + 1 := Nat.exists_eq_succ_of_ne_zero (by omega)
    have hlt := Nat.lt_of_succ_lt_succ hfuel
    have hends : Ends (s ++ rest) := hs.ends (by simp)
    have hnext {name : String} {key u v t : List Char} (hname : Spells name.toList key) (hu : Blank u) :
        nextKey first (lead ++ '"' :: (key ++ '"' :: (u ++ ':' :: (v ++ (t ++ (s ++ rest)))))) =
          .ok (some name, v ++ (t ++ (s ++ rest))) :=
      (nextMember_eq_some_iff readsKey_stringRest).mpr ⟨lead, key, u, hlead, hname, hu, rfl⟩
    cases ht with
    | other hkey ht =>
      cases ht with
      | @of _ u v t hname hu hv ht =>
        have hskip : skip depth (v ++ (t ++ (s ++ rest))) = .ok ((), s ++ rest) :=
          reads_skip.complete hv ht hends
        simp only [List.append_assoc, List.cons_append]
        rw [recordMembers, hnext hname hu]
        simp only [bind, Except.bind, notMem_names_iff.mpr hkey, hskip]
        exact ih hnodup hseen hlt
    | @known name a _ hmem ht =>
      cases ht with
      | of hname hu hv ht =>
        obtain ⟨field, hfind⟩ : ∃ field, fields.find? (·.name == name) = some field := by
          rw [← Option.ne_none_iff_exists']
          exact fun hnone => notMem_names_iff.mp hnone hmem
        obtain ⟨hfield, rfl⟩ := named_of_find? hfind
        obtain ⟨hfirst, hnodup⟩ := List.nodup_cons.mp hnodup
        obtain ⟨hkey, hseen⟩ := List.forall_mem_cons.mp hseen
        have hread := (h field hfield state).complete hv ⟨a, ht, rfl⟩ hends
        simp only [List.append_assoc, List.cons_append]
        rw [recordMembers, hnext hname hu]
        simp only [bind, Except.bind, hfind, if_neg hkey, hread]
        refine ih hnodup (fun f hf hmem => ?_) hlt
        rcases List.mem_cons.mp hmem with heq | hmem
        · exact hfirst (List.mem_map.mpr ⟨f, hf, heq⟩)
        · exact hseen f hf hmem

theorem recordItems_sound (h : Takes fields Text take depth) {optional : Bool}
    (hoptional : ∀ field ∈ fields, field.defaulted = optional)
    (hread : recordItems depth fields state first s = .ok (out, rest)) :
    ∃ found body, Entries ']' (fun f : String × α => Text f.1 f.2) first found body ∧
      found.map Prod.fst <+: fields.map (·.name) ∧
      (optional = true ∨ found.map Prod.fst = fields.map (·.name)) ∧
      out = found.foldl take state ∧ s = body ++ rest := by
  induction fields generalizing state first s with
  | nil =>
    obtain ⟨r, hclose, heq⟩ := map_eq_ok_iff.mp hread
    cases heq
    obtain ⟨u, hu, rfl⟩ := closeArray_eq_ok_iff.mp hclose
    exact ⟨[], u ++ [']'], .done hu, List.nil_prefix, Or.inr rfl, rfl, by simp⟩
  | cons field fields ih =>
    obtain ⟨hfield, htakes⟩ := List.forall_mem_cons.mp h
    obtain ⟨hdefault, hdefaults⟩ := List.forall_mem_cons.mp hoptional
    rw [recordItems] at hread
    obtain ⟨⟨more, r⟩, hnext, hitems⟩ := bind_eq_ok_iff.mp hread
    cases more with
    | false =>
      obtain ⟨u, r, hu, rfl, rfl⟩ := nextItem_eq_false_iff.mp hnext
      dsimp only at hitems
      rw [if_neg (by simp)] at hitems
      split at hitems
      · next hall =>
        cases hitems
        refine ⟨[], u ++ [']'], .done hu, List.nil_prefix, Or.inl ?_, rfl, by simp⟩
        exact hdefault ▸ List.all_eq_true.mp hall field List.mem_cons_self
      · cases hitems
    | true =>
      obtain ⟨lead, hlead, hstarts, rfl⟩ := nextItem_eq_true_iff.mp hnext
      obtain ⟨⟨next, r'⟩, hvalue, hrest⟩ := bind_eq_ok_iff.mp hitems
      obtain ⟨u, t, hu, ⟨a, ht, rfl⟩, rfl⟩ := (hfield state).sound hvalue
      obtain rfl := hstarts.eq_nil_of_blank hu
      obtain ⟨found, body, hbody, hbegin, hall, hout, rfl⟩ := ih htakes hdefaults hrest
      exact ⟨(field.name, a) :: found, _, .entry hlead ht hbody, List.cons_prefix_cons.mpr ⟨rfl, hbegin⟩,
        hall.imp_right (congrArg (field.name :: ·)), hout, by simp⟩

theorem recordItems_complete (h : Takes fields Text take depth) {optional : Bool}
    (hoptional : ∀ field ∈ fields, field.defaulted = optional) {found : List (String × α)}
    {body : List Char} (hbody : Entries ']' (fun f : String × α => Text f.1 f.2) first found body)
    (hbegin : found.map Prod.fst <+: fields.map (·.name))
    (hall : optional = true ∨ found.map Prod.fst = fields.map (·.name)) :
    recordItems depth fields state first (body ++ rest) = .ok (found.foldl take state, rest) := by
  induction fields generalizing state first found body with
  | nil =>
    obtain rfl := List.map_eq_nil_iff.mp (List.prefix_nil.mp hbegin)
    cases hbody with
    | done hu => exact map_eq_ok_iff.mpr ⟨rest, closeArray_eq_ok_iff.mpr ⟨_, hu, by simp⟩, rfl⟩
  | cons field fields ih =>
    obtain ⟨hfield, htakes⟩ := List.forall_mem_cons.mp h
    obtain ⟨hdefault, hdefaults⟩ := List.forall_mem_cons.mp hoptional
    cases hbody with
    | done hu =>
      have hopt : optional = true := hall.resolve_right (by simp)
      have hdefaulted : (field :: fields).all (·.defaulted) = true :=
        List.all_eq_true.mpr fun f hf => (hoptional f hf).trans hopt
      rw [recordItems, nextItem_eq_false_iff.mpr ⟨_, rest, hu, by simp, rfl⟩]
      exact if_pos hdefaulted
    | @entry _ f found lead t s hlead ht hs =>
      obtain ⟨name, a⟩ := f
      obtain ⟨rfl, hmore⟩ := List.cons_prefix_cons.mp hbegin
      have hends : Ends (s ++ rest) := hs.ends (by simp)
      have hread := (hfield state).complete (List.forall_mem_nil _) ⟨a, ht, rfl⟩ hends
      have hstarts : Starts (t ++ (s ++ rest)) := ((hfield state).starts ⟨a, ht, rfl⟩).append
      rw [List.nil_append] at hread
      rw [recordItems, nextItem_eq_true_iff.mpr ⟨lead, hlead, hstarts, by simp⟩]
      change (field.read state depth (t ++ (s ++ rest)) >>= _) = _
      rw [hread]
      exact ih htakes hdefaults hs hmore (hall.imp_right List.tail_eq_of_cons_eq)

/-- A record is read **exactly where it is written**, with what is found taken into it in the order of the
text. -/
theorem Takes.record (h : Takes fields Text take depth) (hdepth : 0 < depth) {optional : Bool}
    (hoptional : ∀ field ∈ fields, field.defaulted = optional) (start : σ) :
    Reads (record fields start)
      (fun out t => ∃ found, RecordText (fields.map (·.name)) optional Text found t ∧
        out = found.foldl take start) (depth + 1) where
  starts := by
    rintro _ _ ⟨found, h, -⟩
    cases h <;> exact ⟨_, _, rfl, by decide⟩
  sound hread := by
    unfold Reader.record at hread
    split at hread
    · next heq =>
      rw [if_neg (by omega)] at hread
      obtain ⟨-, u, hu, rfl⟩ := spaces_eq_cons_iff.mp heq
      obtain ⟨found, body, hbody, hbegin, hall, hout, rfl⟩ := recordItems_sound h hoptional hread
      exact ⟨u, _, hu, ⟨found, .array hbody hbegin hall, hout⟩, rfl⟩
    · next heq =>
      rw [if_neg (by omega)] at hread
      obtain ⟨-, u, hu, rfl⟩ := spaces_eq_cons_iff.mp heq
      obtain ⟨members, body, hbody, hnodup, -, hout, rfl⟩ := recordMembers_sound h hread
      exact ⟨u, _, hu, ⟨_, .object hbody rfl hnodup, hout⟩, rfl⟩
    · cases hread
  complete := by
    rintro u _ _ rest hu ⟨found, htext, rfl⟩ -
    cases htext with
    | array hs hnames hall =>
      rw [Reader.record, spaces_append hu, List.cons_append, spaces_cons (by decide)]
      change (if _ then _ else _) = _
      rw [if_neg (by omega)]
      exact recordItems_complete h hoptional hs hnames hall
    | @object members s hs hfound hnodup =>
      subst hfound
      have hlength := hs.length_lt fun _ _ => FieldText.starts
      rw [Reader.record, spaces_append hu, List.cons_append, spaces_cons (by decide)]
      change (if _ then _ else _) = _
      rw [if_neg (by omega)]
      refine recordMembers_complete h hs hnodup (fun _ _ => List.not_mem_nil) ?_
      rw [List.length_append]
      omega

end Records

end SiteAssist.Json
