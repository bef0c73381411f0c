import SiteAssist.Proofs.FilePattern.Contents
import SiteAssist.Proofs.Offer.Occurrence
import SiteAssist.Proofs.Site.Upkeep

/-!
# The texts that are offered for translation

Once the catalogs of a site have been scanned, a line that calls for a translated text (`Calls`) is
offered the texts of the module around its file: those that **the catalogs of that module declare**
(`declared`), each once and in the order of their first occurrences over the files that were scanned.

What counts of a tree are the catalogs of the module alone (`catalog?`).  A file that is no catalog, that
is no text or that belongs to another module changes nothing, whatever it contains, since a scan does not
look into files.
-/

namespace SiteAssist.Offer.Translations

open FileCache (readable itemsOf)
open FilePattern (base)

variable {tree tree' : FileTree} {root R p : Path}

/-! ## Catalogs -/

/-- The entries of a file that counts for a module: it belongs to the module, it can be read as text,
and the text is a catalog. -/
def catalog? (tree : FileTree) (R p : Path) : Option (List Po.Entry) :=
  if (Module.customRoot? p).any (·.same R) then
    (tree.readText? p).bind fun text => (Po.parse text).toOption
  else none

/-- The texts that a file declares for a module. The header of a catalog is not a text. -/
def declared (tree : FileTree) (R p : Path) : List String :=
  (((catalog? tree R p).getD []).map (·.msgid)).filter (· ≠ "")

theorem mem_declared_iff {msgid : String} :
    msgid ∈ declared tree R p ↔
      msgid ≠ "" ∧ ∃ es, catalog? tree R p = some es ∧ ∃ e ∈ es, e.msgid = msgid := by
  rw [declared, List.mem_filter, decide_eq_true_iff, and_comm]
  cases catalog? tree R p with
  | none => simp
  | some es => simp

theorem declared_congr (h : catalog? tree' R p = catalog? tree R p) :
    declared tree' R p = declared tree R p := by rw [declared, h, declared]

theorem isSome_readText?_of_catalog? {es : List Po.Entry} (h : catalog? tree R p = some es) :
    (tree.readText? p).isSome = true := by
  rw [catalog?] at h
  cases ht : tree.readText? p with
  | none => simp [ht] at h
  | some text => rfl

/-- A file that cannot be read declares nothing. -/
theorem declared_of_unreadable (h : readable tree p = false) : declared tree R p = [] := by
  cases hc : catalog? tree R p with
  | none => rw [declared, hc]; rfl
  | some es => exact absurd (isSome_readText?_of_catalog? hc) (by simpa [readable] using h)

/-! ## The items of a cache -/

theorem itemsOf_eq_read {c : FileCache Entry} (hc : c.extract = cache.extract) (p : Path)
    (text : String) : c.itemsOf p text = (read p text).getD [] := by
  rw [itemsOf, hc]
  cases hread : read p text <;> simp only [cache, newCache, hread, Option.getD_none, Option.getD_some]

/-- Of the items of a file, those of a module are what it declares. -/
theorem map_filter_itemsOf {c : FileCache Entry} (hc : c.extract = cache.extract) {text : String}
    (ht : tree.readText? p = some text) :
    ((c.itemsOf p text).filter (·.moduleRoot.same R)).map (·.msgid) = declared tree R p := by
  rw [itemsOf_eq_read hc, read, declared, catalog?, ht, Option.bind_some]
  cases Module.customRoot? p with
  | none => simp
  | some m =>
    simp only [Option.any_some]
    cases (Po.parse text).toOption with
    | none => simp
    | some es =>
      rw [Option.map_some, Option.getD_some, List.filter_map, List.map_map]
      by_cases hm : m.same R = true
      · rw [if_pos hm, Option.getD_some, List.filter_map]
        simp [Function.comp_def, hm]
      · rw [if_neg hm]
        simp [Function.comp_def, hm]

theorem flatMap_declared_readable (tree : FileTree) (R : Path) (ps : List Path) :
    (ps.filter (readable tree)).flatMap (declared tree R) = ps.flatMap (declared tree R) := by
  induction ps with
  | nil => rfl
  | cons p ps ih =>
    rw [List.flatMap_cons, ← ih]
    cases h : readable tree p with
    | true => rw [List.filter_cons_of_pos h, List.flatMap_cons]
    | false =>
      rw [List.filter_cons_of_neg (by simp [h]), declared_of_unreadable h, List.nil_append]

/-- A text is declared by what is found if it is that of an entry in some catalog that is watched. -/
theorem mem_flatMap_declared_iff (hw : tree.WellFormed) (hr : root.isAbsolute = true)
    {msgid : String} :
    msgid ∈ (cache.pattern.files tree root).flatMap (declared tree R) ↔
      msgid ≠ "" ∧ ∃ p, Place root p ∧ cache.watches root p = true ∧
        ∃ es, catalog? tree R p = some es ∧ ∃ e ∈ es, e.msgid = msgid := by
  have hplain : cache.pattern.IsPlain := Tended.translations.regular.plain
  rw [← flatMap_declared_readable, List.mem_flatMap]
  simp only [FileCache.mem_files_iff_place hw hr hplain, mem_declared_iff]
  constructor
  · rintro ⟨p, ⟨hplace, hwatch, _⟩, hmsg, hes⟩
    exact ⟨hmsg, p, hplace, hwatch, hes⟩
  · rintro ⟨hmsg, p, hplace, hwatch, es, hes, he⟩
    exact ⟨p, ⟨hplace, hwatch, isSome_readText?_of_catalog? hes⟩, hmsg, es, hes, he⟩

/-- A scan keeps the readable files that are found, and the texts of a module are what these
declare. -/
theorem populate_spec {c : FileCache Entry} (hp : c.pattern = cache.pattern)
    (hx : c.extract = cache.extract) (tree : FileTree) (root R : Path) :
    (c.populate tree root).1.snapshot.entries.map Prod.fst =
        (cache.pattern.files tree root).filter (readable tree) ∧
      ((c.populate tree root).1.items.filter (·.moduleRoot.same R)).map (·.msgid) =
        (cache.pattern.files tree root).flatMap (declared tree R) := by
  have hsteady : FileCache.Steady c.extract := hx ▸ Tended.translations.regular.steady
  obtain ⟨entries, hsnap, hkeys, hall⟩ := FileCache.exists_snapshot_populate hsteady tree root
  rw [hp] at hkeys
  rw [FileCache.items, hsnap]
  refine ⟨hkeys, ?_⟩
  have hentry : ∀ e ∈ entries,
      (e.2.filter (·.moduleRoot.same R)).map (·.msgid) = declared tree R e.1 := by
    intro e he
    obtain ⟨text, ht, hitems⟩ := FileCache.itemsOf_of_extracted (hall e he)
    rw [hitems, map_filter_itemsOf hx ht]
  calc ((entries.flatMap Prod.snd).filter (·.moduleRoot.same R)).map (·.msgid)
      = entries.flatMap fun e => (e.2.filter (·.moduleRoot.same R)).map (·.msgid) := by
        rw [List.filter_flatMap, List.map_flatMap]
    _ = entries.flatMap fun e => declared tree R e.1 := List.flatMap_congr hentry
    _ = (entries.map Prod.fst).flatMap (declared tree R) := by rw [List.flatMap_map]
    _ = (cache.pattern.files tree root).flatMap (declared tree R) := by
        rw [hkeys, flatMap_declared_readable]

/-! ## Requests -/

/-- The line of a request calls for a translated text: what stands before one stands on it. -/
def Calls (r : Request) : Prop := ∃ needle ∈ callSites r, needle <:+: r.linePrefix.toList

theorem calls_iff {r : Request} :
    Calls r ↔ (LinePrefix.endOfLast? r.linePrefix.toList (callSites r)).isSome = true :=
  LinePrefix.isSome_endOfLast?_iff.symm

theorem label_completion (language : Language) (quote : Char) (msgid : String) :
    (completion language quote msgid).label = msgid := by
  rw [completion]
  split <;> rfl

theorem label_replacing (r : Request) (opened : Option (Char × Nat)) (item : Completion) :
    (replacing r opened item).label = item.label := by
  unfold replacing
  split <;> rfl

/-- The labels are the texts of the module. -/
theorem map_label_offered {r : Request} (hroot : Module.customRoot? r.path = some R) (hcall : Calls r)
    (known : List Entry) : (offered known r).map (·.label) = textsOf R known := by
  obtain ⟨n, hn⟩ := Option.isSome_iff_exists.mp (calls_iff.mp hcall)
  rw [offered, hroot, hn]
  simp only [List.map_map, Function.comp_def, label_replacing, label_completion, List.map_id']

theorem offered_congr {r : Request} (hroot : Module.customRoot? r.path = some R)
    {known known' : List Entry} (h : textsOf R known = textsOf R known') :
    offered known r = offered known' r := by
  rw [offered, offered, hroot]
  cases LinePrefix.endOfLast? r.linePrefix.toList (callSites r) with
  | none => rfl
  | some n => simp only [h]

theorem offered_eq_nil {r : Request} (h : Module.customRoot? r.path = none ∨ ¬Calls r)
    (known : List Entry) : offered known r = [] := by
  rw [offered]
  rcases h with h | h
  · rw [h]
  · rw [calls_iff, Bool.not_eq_true, Option.isSome_eq_false_iff, Option.isNone_iff_eq_none] at h
    rw [h]
    cases Module.customRoot? r.path <;> rfl

/-- **Exactly the texts of the module are offered** after a scan, to the files of the module whose line
calls for one. -/
theorem offered_populate (hw : tree.WellFormed) (hr : root.isAbsolute = true) {c : FileCache Entry}
    (hp : c.pattern = cache.pattern) (hx : c.extract = cache.extract) (r : Request) :
    (∀ R, Module.customRoot? r.path = some R → Calls r →
      FirstOccurrences
          (((c.populate tree root).1.snapshot.entries.map Prod.fst).flatMap (declared tree R))
          ((offered (c.populate tree root).1.items r).map (·.label)) ∧
        (∀ msgid, msgid ∈ (offered (c.populate tree root).1.items r).map (·.label) ↔
          msgid ≠ "" ∧ ∃ p, Place root p ∧ cache.watches root p = true ∧
            ∃ es, catalog? tree R p = some es ∧ ∃ e ∈ es, e.msgid = msgid) ∧
        ∀ tree' : FileTree, tree.Alike tree' →
          (∀ p ∈ cache.pattern.files tree root, catalog? tree' R p = catalog? tree R p) →
            offered (c.populate tree' root).1.items r = offered (c.populate tree root).1.items r) ∧
      (Module.customRoot? r.path = none ∨ ¬Calls r →
        offered (c.populate tree root).1.items r = []) := by
  refine ⟨fun R hroot hcall => ?_, fun h => offered_eq_nil h _⟩
  obtain ⟨hkeys, htexts⟩ := populate_spec hp hx tree root R
  have hlabels : (offered (c.populate tree root).1.items r).map (·.label) =
      distinct ((cache.pattern.files tree root).flatMap (declared tree R)) := by
    rw [map_label_offered hroot hcall, textsOf, htexts]
  rw [hlabels, hkeys, flatMap_declared_readable]
  refine ⟨firstOccurrences_distinct _, fun msgid => ?_, fun tree' halike hsame => ?_⟩
  · rw [(firstOccurrences_distinct _).mem_iff, mem_flatMap_declared_iff hw hr]
  · refine offered_congr hroot ?_
    rw [textsOf, textsOf, htexts, (populate_spec hp hx tree' root R).2,
      ← FilePattern.files_congr halike]
    exact congrArg distinct (List.flatMap_congr fun p hm => declared_congr (hsame p hm))

/-- A catalog that has one text in two contexts. -/
def savedTwice : String := "msgid \"Save\"\n\nmsgctxt \"verb\"\nmsgid \"Save\"\n"

/-- A site with two custom modules, each with a catalog. -/
def twoModules : FileTree :=
  ⟨[(["s"], .directory), (["s", "web"], .directory), (["s", "web", "modules"], .directory),
    (["s", "web", "modules", "custom"], .directory),
    (["s", "web", "modules", "custom", "a"], .directory),
    (["s", "web", "modules", "custom", "b"], .directory),
    (["s", "web", "modules", "custom", "a", "de.po"], .file savedTwice.toUTF8),
    (["s", "web", "modules", "custom", "b", "de.po"], .file "msgid \"Load\"\n".toUTF8)]⟩

/-- The site, the catalog of the second module overwritten by what is no catalog. -/
def brokenModule : FileTree :=
  twoModules.write ⟨"/s/web/modules/custom/b/de.po"⟩ "msgid".toUTF8

/-- A call in the code of the first module. -/
def saveCall : Request := .at ⟨"/s/web/modules/custom/a/a.module"⟩ .php "  t('" 3

/-- The text is offered, each time once, and the other module's catalog changes nothing. -/
theorem offered_populate_twoModules :
    FirstOccurrences
        (((cache.populate twoModules ⟨"/s"⟩).1.snapshot.entries.map Prod.fst).flatMap
          (declared twoModules ⟨"/s/web/modules/custom/a"⟩))
        ((offered (cache.populate twoModules ⟨"/s"⟩).1.items saveCall).map (·.label)) ∧
      "Save" ∈ (offered (cache.populate twoModules ⟨"/s"⟩).1.items saveCall).map (·.label) ∧
      offered (cache.populate brokenModule ⟨"/s"⟩).1.items saveCall =
        offered (cache.populate twoModules ⟨"/s"⟩).1.items saveCall := by
  have hw : twoModules.WellFormed := by decide +kernel
  have hroot : (⟨"/s"⟩ : Path).isAbsolute = true := by decide +kernel
  obtain ⟨hin, _⟩ := offered_populate hw hroot (c := cache) rfl rfl saveCall
  obtain ⟨hfirst, hmem, hother⟩ :=
    hin ⟨"/s/web/modules/custom/a"⟩ (by decide +kernel) ⟨" t(".toList, by decide +kernel⟩
  refine ⟨hfirst, (hmem "Save").mpr ?_, hother brokenModule ?_ ?_⟩
  · have hdeclared : "Save" ∈ declared twoModules ⟨"/s/web/modules/custom/a"⟩
        ((base ⟨"/s"⟩).extend ["web", "modules", "custom", "a", "de.po"]) := by decide +kernel
    exact ⟨by decide, _, ⟨["web", "modules", "custom", "a", "de.po"], by simp, by decide +kernel, rfl⟩,
      by decide +kernel, (mem_declared_iff.mp hdeclared).2⟩
  · have hfile : twoModules.fileAt?
        (FileTree.plainLocation ⟨"/s/web/modules/custom/b/de.po"⟩) =
          some "msgid \"Load\"\n".toUTF8 := rfl
    exact hw.alike_write hfile "msgid".toUTF8
  · decide +kernel

end SiteAssist.Offer.Translations
