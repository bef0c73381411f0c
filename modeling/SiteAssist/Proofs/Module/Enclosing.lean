import Mathlib.Data.Nat.Find
import SiteAssist.Offer.Translations
import SiteAssist.Proofs.FileTree.Locating

/-!
# The custom modules around a file

A directory right below `web/modules/custom` is a custom module if its name is a word (`IsModule`).
Where a site lies in a custom module of another, a file of the site lies in two modules or more, and
the **outermost** one is taken for its own (`customRoot?_eq_some_iff`).

That is the nearest one, which is meant, only if there are no two.  Otherwise all modules of the site
are taken for one: `customRoot?_outermost`.
-/

namespace SiteAssist.Module

open FileTree (plainLocation pathOf steps_of_plain)
open SiteAssist.Path (IsFileName Step)

/-! ## Modules on the way to a file -/

/-- The names on the way to custom modules. -/
def customNames : Location := ["web", "modules", "custom"]

/-- A name that is a word: letters, numbers and underscores, at least one. -/
def IsModuleWord (n : String) : Prop := n ≠ "" ∧ ∀ c ∈ n.toList, Text.isName c = true

instance (n : String) : Decidable (IsModuleWord n) :=
  decidable_of_iff (n ≠ "" ∧ n.toList.all Text.isName = true)
    (and_congr_right fun _ => List.all_eq_true)

/-- A location of the form `…/web/modules/custom/NAME`. -/
def IsModule (l : Location) : Prop :=
  ∃ above name, l = above ++ customNames ++ [name] ∧ IsModuleWord name

/-- The least module location on the way to another. -/
structure Outermost (loc l : Location) : Prop where
  leads : l <+: loc
  isModule : IsModule l
  least : ∀ m, m <+: loc → IsModule m → l.length ≤ m.length

/-- The greatest module location on the way to another. -/
structure Nearest (loc l : Location) : Prop where
  leads : l <+: loc
  isModule : IsModule l
  greatest : ∀ m, m <+: loc → IsModule m → m.length ≤ l.length

/-- Some module location leads to the location. -/
def InModule (loc : Location) : Prop := ∃ l, l <+: loc ∧ IsModule l

theorem IsModule.length_le {l : Location} (h : IsModule l) : 4 ≤ l.length := by
  obtain ⟨above, name, rfl, _⟩ := h
  simp [customNames]

theorem IsModule.append {l : Location} (h : IsModule l) (above : Location) :
    IsModule (above ++ l) := by
  obtain ⟨outer, name, rfl, hname⟩ := h
  exact ⟨above ++ outer, name, by simp only [List.append_assoc], hname⟩

theorem isModule_start {name : String} (h : IsModuleWord name) : IsModule (customNames ++ [name]) :=
  ⟨[], name, rfl, h⟩

/-- A module location starts with the names, or goes on after the first of its own. -/
theorem IsModule.cases {n : String} {l : Location} (h : IsModule (n :: l)) :
    (∃ name, n :: l = customNames ++ [name] ∧ IsModuleWord name) ∨ IsModule l := by
  obtain ⟨above, name, he, hname⟩ := h
  cases above with
  | nil => exact Or.inl ⟨name, he, hname⟩
  | cons a above =>
    simp only [List.cons_append, List.cons.injEq] at he
    exact Or.inr ⟨above, name, he.2, hname⟩

theorem Outermost.eq {loc l m : Location} (h : Outermost loc l) (h' : Outermost loc m) : l = m := by
  have hle := h.least m h'.leads h'.isModule
  have hge := h'.least l h.leads h.isModule
  exact (List.prefix_of_prefix_length_le h.leads h'.leads hle).eq_of_length
    (Nat.le_antisymm hle hge)

theorem Nearest.eq {loc l m : Location} (h : Nearest loc l) (h' : Nearest loc m) : l = m := by
  have hle := h'.greatest l h.leads h.isModule
  have hge := h.greatest m h'.leads h'.isModule
  exact (List.prefix_of_prefix_length_le h.leads h'.leads hle).eq_of_length
    (Nat.le_antisymm hle hge)

/-- On the way to a location in a module there is an outermost one. -/
theorem InModule.exists_outermost {loc : Location} (h : InModule loc) : ∃ l, Outermost loc l := by
  classical
  have hex : ∃ k, ∃ l, (l <+: loc ∧ IsModule l) ∧ l.length = k := by
    obtain ⟨l, hl⟩ := h
    exact ⟨l.length, l, hl, rfl⟩
  obtain ⟨l, ⟨hlead, hmod⟩, hlen⟩ := Nat.find_spec hex
  refine ⟨l, hlead, hmod, fun m hm hm' => ?_⟩
  rw [hlen]
  exact Nat.find_min' hex ⟨m, ⟨hm, hm'⟩, rfl⟩

/-! ## The search -/

/-- A list of names that starts with a module location. -/
def StartsIn (ns : Location) : Prop :=
  ∃ name rest, ns = customNames ++ name :: rest ∧ IsModuleWord name

theorem isModuleName_iff {n : String} (h : n ≠ "") :
    isModuleName (.name n) = true ↔ IsModuleWord n := by
  rw [isModuleName, List.all_eq_true, IsModuleWord, and_iff_right h]

theorem customLength?_of_startsIn {ns : Location} (h : StartsIn ns) :
    customLength? (ns.map .name) = some 4 := by
  obtain ⟨name, rest, rfl, hname⟩ := h
  have hword := (isModuleName_iff hname.1).mpr hname
  simp [customLength?, customNames, customSteps, hword]

theorem isPrefixOf_customSteps {ns : Location} (h : customSteps.isPrefixOf (ns.map .name) = true) :
    ∃ rest, ns = customNames ++ rest := by
  have hmap : customSteps = customNames.map Step.name := rfl
  obtain ⟨rest, hrest⟩ := List.isPrefixOf_iff_prefix.mp h
  obtain ⟨l, r, rfl, hl, _⟩ := List.map_eq_append_iff.mp hrest.symm
  rw [hmap] at hl
  exact ⟨r, by rw [Path.names_inj hl]⟩

theorem customLength?_of_not_startsIn {n : String} {ns : Location} (hn : ∀ m ∈ n :: ns, m ≠ "")
    (h : ¬StartsIn (n :: ns)) :
    customLength? ((n :: ns).map .name) = (customLength? (ns.map .name)).map (· + 1) := by
  rw [List.map_cons, customLength?]
  split
  · rename_i s ss hpre hdrop
    rw [← List.map_cons, ← List.map_drop] at hdrop
    obtain ⟨name, rest, hrest, rfl, _⟩ := List.map_eq_cons_iff.mp hdrop
    rw [if_neg]
    intro hword
    have hstart : customSteps.isPrefixOf ((n :: ns).map .name) = true := hpre
    obtain ⟨tail, htail⟩ := isPrefixOf_customSteps hstart
    have hname : name ∈ n :: ns := List.mem_of_mem_drop (by rw [hrest]; exact List.mem_cons_self)
    refine h ⟨name, rest, ?_, (isModuleName_iff (hn name hname)).mp hword⟩
    rw [htail] at hrest ⊢
    exact congrArg (customNames ++ ·) hrest
  · rfl

theorem StartsIn.exists_outermost {ns : Location} (h : StartsIn ns) :
    ∃ l, Outermost ns l ∧ l.length = 4 := by
  obtain ⟨name, rest, rfl, hname⟩ := h
  refine ⟨customNames ++ [name], ⟨⟨rest, ?_⟩, isModule_start hname, fun m _ hm => hm.length_le⟩, rfl⟩
  rw [List.append_assoc, List.singleton_append]

/-- Where no module location starts, one name more changes none. -/
theorem isModule_cons_iff {n : String} {ns l : Location} (h : ¬StartsIn (n :: ns))
    (hlead : l <+: ns) : IsModule (n :: l) ↔ IsModule l := by
  refine ⟨fun hm => hm.cases.resolve_left ?_, fun hm => hm.append [n]⟩
  rintro ⟨name, he, hname⟩
  obtain ⟨rest, rfl⟩ := hlead
  exact h ⟨name, rest, by rw [← List.cons_append, he, List.append_assoc, List.singleton_append], hname⟩

theorem outermost_cons_iff {n : String} {ns l : Location} (h : ¬StartsIn (n :: ns)) :
    Outermost (n :: ns) (n :: l) ↔ Outermost ns l := by
  constructor
  · rintro ⟨hlead, hmod, hleast⟩
    have htail := (List.cons_prefix_cons.mp hlead).2
    refine ⟨htail, (isModule_cons_iff h htail).mp hmod, fun m hm hm' => ?_⟩
    have := hleast (n :: m) (List.cons_prefix_cons.mpr ⟨rfl, hm⟩) (hm'.append [n])
    simpa using this
  · rintro ⟨hlead, hmod, hleast⟩
    refine ⟨List.cons_prefix_cons.mpr ⟨rfl, hlead⟩, hmod.append [n], fun m hm hm' => ?_⟩
    cases m with
    | nil => simpa using hm'.length_le
    | cons x m =>
      obtain ⟨rfl, htail⟩ := List.cons_prefix_cons.mp hm
      have := hleast m htail ((isModule_cons_iff h htail).mp hm')
      simpa using this

/-- The first length that fits is that of the outermost module. -/
theorem customLength?_names {ns : Location} (hn : ∀ n ∈ ns, n ≠ "") (k : Nat) :
    customLength? (ns.map .name) = some k ↔ ∃ l, Outermost ns l ∧ l.length = k := by
  induction ns generalizing k with
  | nil =>
    refine ⟨fun h => by simp [customLength?] at h, ?_⟩
    rintro ⟨l, ⟨hlead, hmod, _⟩, _⟩
    have := hmod.length_le
    simp [List.prefix_nil.mp hlead] at this
  | cons n ns ih =>
    have ih := ih fun m hm => hn m (List.mem_cons_of_mem n hm)
    by_cases h : StartsIn (n :: ns)
    · obtain ⟨m, hm, hlen⟩ := h.exists_outermost
      rw [customLength?_of_startsIn h, Option.some.injEq]
      constructor
      · rintro rfl
        exact ⟨m, hm, hlen⟩
      · rintro ⟨l, hl, rfl⟩
        rw [hl.eq hm, hlen]
    · rw [customLength?_of_not_startsIn hn h, Option.map_eq_some_iff]
      constructor
      · rintro ⟨j, hj, rfl⟩
        obtain ⟨l, hl, rfl⟩ := (ih j).mp hj
        exact ⟨n :: l, (outermost_cons_iff h).mpr hl, rfl⟩
      · rintro ⟨l, hl, rfl⟩
        cases l with
        | nil => simpa using hl.isModule.length_le
        | cons x l =>
          obtain ⟨rfl, _⟩ := List.cons_prefix_cons.mp hl.leads
          exact ⟨l.length, (ih _).mpr ⟨l, (outermost_cons_iff h).mp hl, rfl⟩, rfl⟩

theorem inModule_iff {ns : Location} (hn : ∀ n ∈ ns, n ≠ "") :
    InModule ns ↔ (customLength? (ns.map .name)).isSome = true := by
  rw [Option.isSome_iff_exists]
  constructor
  · intro h
    obtain ⟨l, hl⟩ := h.exists_outermost
    exact ⟨l.length, (customLength?_names hn _).mpr ⟨l, hl, rfl⟩⟩
  · rintro ⟨k, hk⟩
    obtain ⟨l, hl, _⟩ := (customLength?_names hn k).mp hk
    exact ⟨l, hl.leads, hl.isModule⟩

/-! ## The module of a file -/

theorem ofSteps_root {ns : Location} (hn : ∀ n ∈ ns, IsFileName n) :
    Path.ofSteps (.root :: ns.map .name) = pathOf ns := by
  rw [Path.pathOf_eq_extend hn, Path.ofSteps, List.foldl_cons, List.foldl_map]
  rfl

theorem pathOf_inj {l m : Location} (hl : ∀ n ∈ l, IsFileName n) (hm : ∀ n ∈ m, IsFileName n)
    (h : pathOf l = pathOf m) : l = m := by
  rw [Path.pathOf_eq_extend hl, Path.pathOf_eq_extend hm] at h
  have hroot : (⟨"/"⟩ : Path).isAbsolute = true := rfl
  exact (Path.extend_same_iff hroot hroot (Path.same_iff.mpr rfl) hl hm).mp (Path.same_iff.mpr (by rw [h]))

variable {p : Path}

/-- A file is taken for one of **the outermost module around it**. -/
theorem customRoot?_eq_some_iff (hp : p.isAbsolute = true) (hup : .up ∉ p.steps) (d : Path) :
    customRoot? p = some d ↔ ∃ l, Outermost (plainLocation p) l ∧ d = pathOf l := by
  obtain ⟨hsteps, hnames⟩ := steps_of_plain hp hup
  have hlength : customLength? p.steps =
      (customLength? ((plainLocation p).map .name)).map (· + 1) := by
    rw [hsteps]
    rfl
  have hpath : ∀ l, l <+: plainLocation p →
      Path.ofSteps (p.steps.take (l.length + 1)) = pathOf l := by
    intro l hl
    rw [hsteps, List.take_succ_cons, ← List.map_take, ← List.prefix_iff_eq_take.mp hl,
      ofSteps_root fun n hn => hnames n (hl.subset hn)]
  rw [customRoot?, hlength, Option.map_map, Option.map_eq_some_iff]
  constructor
  · rintro ⟨k, hk, rfl⟩
    obtain ⟨l, hl, rfl⟩ := (customLength?_names (fun n hn => (hnames n hn).1) k).mp hk
    exact ⟨l, hl, hpath l hl.leads⟩
  · rintro ⟨l, hl, rfl⟩
    exact ⟨l.length, (customLength?_names (fun n hn => (hnames n hn).1) _).mpr ⟨l, hl, rfl⟩,
      hpath l hl.leads⟩

/-- A file is taken for one of the nearest module around it. -/
def TakesNearest (p : Path) : Prop :=
  ∀ d, customRoot? p = some d ↔ ∃ l, Nearest (plainLocation p) l ∧ d = pathOf l

/-- No location leads to this one through two modules. -/
def OneModule (loc : Location) : Prop :=
  ∀ l m, l <+: loc → IsModule l → m <+: loc → IsModule m → l = m

/-- What is the outermost module of a location is that of all below it. -/
theorem Outermost.append {loc l : Location} (h : Outermost loc l) (rest : Location) :
    Outermost (loc ++ rest) l := by
  have hlead : loc <+: loc ++ rest := List.prefix_append loc rest
  refine ⟨h.leads.trans hlead, h.isModule, fun m hm hm' => ?_⟩
  rcases Nat.le_total m.length loc.length with hle | hge
  · exact h.least m (List.prefix_of_prefix_length_le hm hlead hle) hm'
  · exact Nat.le_trans h.leads.length_le hge

/-- A module of a site that lies in none is the outermost one. -/
theorem outermost_of_not_inModule {site : Location} (h : ¬InModule (site ++ customNames)) {name : String}
    (hname : IsModuleWord name) (rest : Location) :
    Outermost (site ++ customNames ++ name :: rest) (site ++ customNames ++ [name]) := by
  have hlead : site ++ customNames <+: site ++ customNames ++ name :: rest := List.prefix_append _ _
  refine ⟨⟨rest, by simp only [List.append_assoc, List.singleton_append]⟩, ⟨site, name, rfl, hname⟩,
    fun m hm hm' => ?_⟩
  rw [List.length_append, List.length_singleton]
  by_contra hlt
  exact h ⟨m, List.prefix_of_prefix_length_le hm hlead (by omega), hm'⟩

theorem takesNearest_iff (hp : p.isAbsolute = true) (hup : .up ∉ p.steps) :
    TakesNearest p ↔ OneModule (plainLocation p) := by
  have hnames := (steps_of_plain hp hup).2
  have houter := customRoot?_eq_some_iff hp hup
  constructor
  · intro hall l m hl hl' hm hm'
    -- the outermost module is also the nearest, so that all others are as long as it
    obtain ⟨o, ho⟩ := InModule.exists_outermost ⟨l, hl, hl'⟩
    obtain ⟨n, hn, he⟩ := (hall (pathOf o)).mp ((houter (pathOf o)).mpr ⟨o, ho, rfl⟩)
    obtain rfl : o = n := pathOf_inj (fun x hx => hnames x (ho.leads.subset hx))
      (fun x hx => hnames x (hn.leads.subset hx)) he
    have hlen : l.length = m.length :=
      (Nat.le_antisymm (hn.greatest l hl hl') (ho.least l hl hl')).trans
        (Nat.le_antisymm (ho.least m hm hm') (hn.greatest m hm hm'))
    exact (List.prefix_of_prefix_length_le hl hm (Nat.le_of_eq hlen)).eq_of_length hlen
  · intro hone d
    rw [houter]
    have hsame : ∀ l, Outermost (plainLocation p) l ↔ Nearest (plainLocation p) l := by
      intro l
      constructor
      · rintro ⟨hl, hl', _⟩
        exact ⟨hl, hl', fun m hm hm' => by rw [hone m l hm hm' hl hl']⟩
      · rintro ⟨hl, hl', _⟩
        exact ⟨hl, hl', fun m hm hm' => by rw [hone l m hl hl' hm hm']⟩
    simp only [hsame]

/-- **The outermost module is taken**, which is the nearest one only if there are no two; and two
modules of a site are told apart only if the site lies in none. -/
theorem customRoot?_outermost (hp : p.isAbsolute = true) (hup : .up ∉ p.steps) :
    (∀ d, customRoot? p = some d ↔ ∃ l, Outermost (plainLocation p) l ∧ d = pathOf l) ∧
      (TakesNearest p ↔ OneModule (plainLocation p)) ∧
      ∀ (site : Location) (a : String) (u : Location),
        plainLocation p = site ++ customNames ++ a :: u → IsModuleWord a →
        ∀ (q : Path) (b : String) (v : Location), q.isAbsolute = true → .up ∉ q.steps →
          plainLocation q = site ++ customNames ++ b :: v → IsModuleWord b → a ≠ b →
            (customRoot? p ≠ customRoot? q ↔ ¬InModule (site ++ customNames)) := by
  refine ⟨customRoot?_eq_some_iff hp hup, takesNearest_iff hp hup, ?_⟩
  intro site a u hpl ha q b v hq hqup hql hb hab
  have houter := customRoot?_eq_some_iff hp hup
  have houter' := customRoot?_eq_some_iff hq hqup
  rw [hpl] at houter
  rw [hql] at houter'
  constructor
  · intro hne hin
    obtain ⟨o, ho⟩ := hin.exists_outermost
    refine hne ?_
    rw [(houter (pathOf o)).mpr ⟨o, ho.append _, rfl⟩, (houter' (pathOf o)).mpr ⟨o, ho.append _, rfl⟩]
  · intro hout he
    have hpa := outermost_of_not_inModule hout ha u
    have hqb := outermost_of_not_inModule hout hb v
    rw [(houter _).mpr ⟨_, hpa, rfl⟩, (houter' _).mpr ⟨_, hqb, rfl⟩] at he
    have hnames := (steps_of_plain hp hup).2
    have hnames' := (steps_of_plain hq hqup).2
    rw [hpl] at hnames
    rw [hql] at hnames'
    have hloc := pathOf_inj (fun n hn => hnames n (hpa.leads.subset hn))
      (fun n hn => hnames' n (hqb.leads.subset hn)) (Option.some.inj he)
    exact hab (List.singleton_inj.mp (List.append_cancel_left hloc))

/-- A site that lies in no module: its two modules are told apart. -/
theorem customRoot?_outermost_apart :
    plainLocation ⟨"/srv/site/web/modules/custom/a/src/A.php"⟩ =
        ["srv", "site"] ++ customNames ++ "a" :: ["src", "A.php"] ∧
      plainLocation ⟨"/srv/site/web/modules/custom/b/b.module"⟩ =
        ["srv", "site"] ++ customNames ++ "b" :: ["b.module"] ∧
      customRoot? ⟨"/srv/site/web/modules/custom/a/src/A.php"⟩ ≠
        customRoot? ⟨"/srv/site/web/modules/custom/b/b.module"⟩ := by
  have ha : plainLocation ⟨"/srv/site/web/modules/custom/a/src/A.php"⟩ =
      ["srv", "site"] ++ customNames ++ "a" :: ["src", "A.php"] := by decide +kernel
  have hb : plainLocation ⟨"/srv/site/web/modules/custom/b/b.module"⟩ =
      ["srv", "site"] ++ customNames ++ "b" :: ["b.module"] := by decide +kernel
  have hout : ¬InModule (["srv", "site"] ++ customNames) := by
    rw [inModule_iff (by decide)]
    decide +kernel
  obtain ⟨_, _, htold⟩ := customRoot?_outermost
    (p := ⟨"/srv/site/web/modules/custom/a/src/A.php"⟩) (by decide +kernel) (by decide +kernel)
  exact ⟨ha, hb, (htold ["srv", "site"] "a" ["src", "A.php"] ha (by decide +kernel)
    ⟨"/srv/site/web/modules/custom/b/b.module"⟩ "b" ["b.module"] (by decide +kernel)
    (by decide +kernel) hb (by decide +kernel) (by decide)).mpr hout⟩

/-- The root of a site that lies in a custom module of another. -/
def nestedRoot : Location := ["srv", "web", "modules", "custom", "a"]

/-- The site, with a catalog in one of its own custom modules. -/
def nestedSite : FileTree :=
  ⟨[(["srv"], .directory), (["srv", "web"], .directory), (["srv", "web", "modules"], .directory),
    (["srv", "web", "modules", "custom"], .directory), (nestedRoot, .directory),
    (nestedRoot ++ ["web"], .directory), (nestedRoot ++ ["web", "modules"], .directory),
    (nestedRoot ++ ["web", "modules", "custom"], .directory),
    (nestedRoot ++ ["web", "modules", "custom", "c"], .directory),
    (nestedRoot ++ ["web", "modules", "custom", "c", "de.po"], .file "msgid \"Load\"\n".toUTF8)]⟩

/-- A file of another of its modules. -/
def nestedFile : Path := ⟨"/srv/web/modules/custom/a/web/modules/custom/b/b.module"⟩

/-- In a site that lies in a custom module the nearest module of a file **is not the one taken**, and
the file is offered the texts of other modules. -/
theorem outer_module_taken :
    customRoot? nestedFile = some ⟨"/srv/web/modules/custom/a"⟩ ∧
      Nearest (plainLocation nestedFile) (nestedRoot ++ customNames ++ ["b"]) ∧
      ¬TakesNearest nestedFile ∧
      "Load" ∈ (Offer.Translations.offered
        (Offer.Translations.cache.populate nestedSite (pathOf nestedRoot)).1.items
        (.at nestedFile .php "  t('" 3)).map (·.label) := by
  have hloc : plainLocation nestedFile = nestedRoot ++ customNames ++ ["b", "b.module"] := by
    decide +kernel
  have hinner : IsModule (nestedRoot ++ customNames ++ ["b"]) := ⟨nestedRoot, "b", rfl, by decide +kernel⟩
  have hlead : nestedRoot ++ customNames ++ ["b"] <+: plainLocation nestedFile :=
    ⟨["b.module"], by rw [hloc]; rfl⟩
  refine ⟨by decide +kernel, ⟨hlead, hinner, fun m hm hm' => ?_⟩, ?_, by decide +kernel⟩
  · by_contra hlt
    have hlen := hm.length_le
    rw [hloc] at hm hlen
    have hall : m = nestedRoot ++ customNames ++ ["b", "b.module"] :=
      hm.eq_of_length (Nat.le_antisymm hlen (by
        simp only [List.length_append, List.length_cons] at hlt ⊢; omega))
    obtain ⟨above, name, he, hname⟩ := hm'
    have hlast : name = "b.module" := by
      have := congrArg List.getLast? (he.symm.trans hall)
      simpa [nestedRoot, customNames] using this
    rw [hlast] at hname
    exact absurd hname (by decide +kernel)
  · rw [takesNearest_iff (by decide +kernel) (by decide +kernel)]
    intro hone
    have houter : IsModule nestedRoot := ⟨["srv"], "a", rfl, by decide +kernel⟩
    have hlead' : nestedRoot <+: plainLocation nestedFile := by
      rw [hloc]
      exact ⟨_, rfl⟩
    exact absurd (hone _ _ hlead' houter hlead hinner) (by decide)

end SiteAssist.Module
