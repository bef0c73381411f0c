import SiteAssist.Site
import SiteAssist.Proofs.Cache.Upkeep

/-!
# A site kept up to date

A site is filled once and then told of what happens to its files.  This file says that each of its
five caches then holds for each file what a site filled from the tree as it is now would hold.

* `Part`: one of the caches, whatever is done to all of them.
* `Tended`: a cache that can be kept up to date and **does not look at the lock file**, whose events
  never reach the caches.  The five are (`Tended.hooks` and so on).
* `Part.of_follow`: of each cache **a run of the site is a run**.
* `agree_follow`: the site agrees with one filled anew, if for every file the last that happens is an
  event, and a true one.

Paths that are told of have to be spelled with plain names below the root: `missed_strayRun` gives two
runs that go wrong only because they are not.
-/

namespace SiteAssist

open SiteAssist.Path (IsFileName same_iff)

/-! ## Patterns and extractors -/

namespace Offer

theorem reads_of_mem_patternOf {source : String} :
    ∀ a ∈ (patternOf source).alternatives,
      a.source.toList ∈ Glob.expandBraces source.toList ∧
        Glob.Reads true a.source.toList a.tokens := by
  intro a ha
  rw [patternOf] at ha
  cases hp : FilePattern.parse source with
  | ok fp =>
    rw [hp] at ha
    exact FilePattern.reads_of_parse hp a ha
  | error e =>
    rw [hp] at ha
    simp at ha

/-- A new cache is steady if it reads by the steps of a path. -/
theorem steady_newCache {α : Type} (pattern : String) {read : Path → String → Option (List α)}
    (h : ∀ p q text, p.same q = true → read p text = read q text) :
    FileCache.Steady (newCache pattern read).extract := by
  constructor
  · intro p text
    simp only [newCache]
    cases read p text <;> simp
  · intro p q text hs
    simp only [newCache, h p q text hs]

theorem moduleOfFile_congr {p q : Path} (h : p.same q = true) (ending : String) :
    moduleOfFile p ending = moduleOfFile q ending := by
  rw [moduleOfFile, moduleOfFile, Path.fileName?, Path.fileName?, same_iff.mp h]

end Offer

theorem Module.customRoot?_congr {p q : Path} (h : p.same q = true) :
    Module.customRoot? p = Module.customRoot? q := by
  rw [customRoot?, customRoot?, same_iff.mp h]

/-- A cache that can be kept up to date and does not watch the lock file. -/
structure Tended {α : Type} (c : FileCache α) : Prop where
  regular : c.Regular
  unlocked : ∀ a ∈ c.pattern.alternatives, a.fits Site.lockFile.toList = false

namespace Tended

theorem of_fixed {α : Type} {c c' : FileCache α} (hc : Tended c)
    (h : c'.pattern = c.pattern ∧ c'.extract = c.extract) : Tended c' :=
  ⟨hc.regular.of_fixed h, h.1 ▸ hc.unlocked⟩

/-- A new cache can be kept up to date if its pattern is plain and led by the folder `web`. -/
theorem newCache {α : Type} {pattern : String} {read : Path → String → Option (List α)}
    (hled : ∀ s ∈ Glob.expandBraces pattern.toList, Glob.Plain s ∧ s.head? = some 'w')
    (hread : ∀ p q text, p.same q = true → read p text = read q text) :
    Tended (Offer.newCache pattern read) := by
  have hfits : ∀ a ∈ (Offer.patternOf pattern).alternatives, ∀ t : List Char,
      t.head? ≠ some 'w' → a.fits t = false := by
    intro a ha t ht
    obtain ⟨hs, hreads⟩ := Offer.reads_of_mem_patternOf a ha
    rw [← Bool.not_eq_true, Glob.Pattern.fits_iff hreads.placed]
    exact fun hd => ht (hreads.head?_of_denotes (hled _ hs).2 (by decide) hd)
  refine ⟨⟨Offer.steady_newCache pattern hread, fun a ha => ?_, fun a ha => ?_⟩, fun a ha => ?_⟩
  · obtain ⟨hs, hreads⟩ := Offer.reads_of_mem_patternOf a ha
    exact ⟨hreads, (hled _ hs).1⟩
  · exact hfits a ha [] (by simp)
  · exact hfits a ha _ (by decide +kernel)

theorem hooks : Tended Offer.Hooks.cache :=
  newCache (by decide +kernel) fun _ _ _ _ => rfl

theorem routes : Tended Offer.Routes.cache := by
  refine newCache (by decide +kernel) fun p q text h => ?_
  rw [Offer.Routes.read, Offer.Routes.read, Offer.moduleOfFile_congr h]

theorem services : Tended Offer.Services.cache := by
  refine newCache (by decide +kernel) fun p q text h => ?_
  rw [Offer.Services.read, Offer.Services.read, Offer.moduleOfFile_congr h]

theorem globals : Tended Offer.Globals.cache :=
  newCache (by decide +kernel) fun _ _ _ _ => rfl

theorem translations : Tended Offer.Translations.cache := by
  refine newCache (by decide +kernel) fun p q text h => ?_
  rw [Offer.Translations.read, Offer.Translations.read, Module.customRoot?_congr h]

variable {α : Type} {c : FileCache α} {root : Path}

/-- The lock file is watched by none. -/
theorem watches_lockFile (hc : Tended c) (hr : root.isAbsolute = true) {p : Path}
    (hp : p.under root = true → Spelled root p)
    (hs : p.same (root.join Site.lockFile) = true) : c.watches root p = false := by
  have hname : ∀ n ∈ [Site.lockFile], IsFileName n := by decide +kernel
  have hlock : root.join Site.lockFile = root.extend [Site.lockFile] := rfl
  rw [hlock] at hs
  have hunder : p.under root = true := by
    rw [Path.under_iff, same_iff.mp hs, Path.steps_extend hr hname]
    exact List.prefix_append _ _
  obtain ⟨b, ns, hb, hbr, hn, rfl⟩ := hp hunder
  obtain rfl := (Path.extend_same_iff hb hr hbr hn hname).mp hs
  rw [FileCache.watches, FilePattern.accepts, Path.relativeTo?_extend hb hbr (by simp) hn,
    List.any_eq_false]
  intro a ha
  simpa [List.intercalate] using hc.unlocked a ha

end Tended

/-! ## Runs of a site -/

/-- One of the caches of a site: what is done to all of them is done to it. -/
structure Part (α : Type) where
  of : Caches → FileCache α
  of_map : ∀ (f : {β : Type} → FileCache β → FileCache β) (cs : Caches), of (cs.map f) = f (of cs)

namespace Site

/-- A site as it is first found. -/
def new (id : Nat) (root : Path) : Site := { id, root }

/-- The site after one thing that happens: it is told of events only. -/
def after (s : Site) (tree : FileTree) : Happening → Site
  | .told p event => s.onEvent tree p event
  | _ => s

/-- The site after all that happens, from a tree on. -/
def follow : Site → FileTree → List Happening → Site
  | s, _, [] => s
  | s, tree, h :: hs => follow (s.after tree h) (h.tree tree) hs

theorem root_after (s : Site) (tree : FileTree) (h : Happening) : (s.after tree h).root = s.root := by
  cases h with
  | told p event =>
    rw [after, onEvent]
    split
    · rfl
    · split <;> rfl
  | written | deleted => rfl

end Site

variable {α : Type}

/-- Of each cache a step of the site is a step, also where the site keeps an event back. -/
theorem Part.of_after (part : Part α) {s : Site} (hc : Tended (part.of s.caches))
    (hr : s.root.isAbsolute = true) {h : Happening} (ha : h.Allowed s.root) (tree : FileTree) :
    part.of (s.after tree h).caches = (part.of s.caches).after s.root tree h := by
  cases h with
  | written | deleted => rfl
  | told p event =>
    rw [Site.after, FileCache.after, FileCache.told, Site.onEvent]
    by_cases hfile : s.hasFile p = true
    · rw [if_neg (by simpa using hfile)]
      by_cases hlock : p.same (s.root.join Site.lockFile) = true
      · rw [if_pos hlock, hc.watches_lockFile hr ha hlock]
        rfl
      · rw [if_neg hlock]
        exact part.of_map (fun c => if c.watches s.root p then (c.apply tree p event).1 else c) s.caches
    · rw [if_pos hfile, if_neg fun hw => hfile (FileCache.under_of_watches hw)]

theorem Part.of_follow (part : Part α) : ∀ {hs : List Happening} {s : Site} {tree : FileTree},
    Tended (part.of s.caches) → s.root.isAbsolute = true → (∀ h ∈ hs, h.Allowed s.root) →
      part.of (s.follow tree hs).caches = (part.of s.caches).follow s.root tree hs := by
  intro hs
  induction hs with
  | nil => intro s tree _ _ _; rfl
  | cons h hs ih =>
    intro s tree hc hr hall
    have hstep := part.of_after hc hr (hall h List.mem_cons_self) tree
    have hroot := s.root_after tree h
    have hc' : Tended (part.of (s.after tree h).caches) := by
      rw [hstep]
      exact hc.of_fixed ((part.of s.caches).after_fixed s.root tree h)
    have hrest := @ih (s.after tree h) (h.tree tree) hc' (by rwa [hroot])
      (by rw [hroot]; exact fun x hx => hall x (List.mem_cons_of_mem h hx))
    rw [hstep, hroot] at hrest
    exact hrest

/-- Each cache of a site that is told of what happens agrees with a scan. -/
theorem Part.entry?_follow (part : Part α) (hc : Tended (part.of .fresh)) (id : Nat) {root : Path}
    (hr : root.isAbsolute = true) {tree : FileTree} (hw : tree.WellFormed) (ht : tree.Textual)
    {hs : List Happening} (hall : ∀ h ∈ hs, h.Allowed root)
    (hsettled : Settled root (treeAfter tree hs) hs) (p : Path) :
    FileCache.entry? (part.of (((Site.new id root).populate tree).follow tree hs).caches) p =
      FileCache.entry? (part.of ((Site.new id root).populate (treeAfter tree hs)).caches) p := by
  have hpop : ∀ t, part.of ((Site.new id root).populate t).caches =
      ((part.of .fresh).populate t root).1 := fun t =>
    part.of_map (fun c => (c.populate t root).1) .fresh
  have hc' : Tended (part.of ((Site.new id root).populate tree).caches) := by
    rw [hpop]
    exact hc.of_fixed (FileCache.populate_fixed _ tree root)
  rw [part.of_follow hc' hr hall, hpop, hpop]
  exact FileCache.entry?_follow hc.regular hr hw ht hall hsettled p

/-! ## Agreement -/

/-- Two sites' caches hold the same for every file. -/
def Caches.Agree (cs ds : Caches) : Prop :=
  ∀ p, cs.hooks.entry? p = ds.hooks.entry? p ∧ cs.routes.entry? p = ds.routes.entry? p ∧
    cs.services.entry? p = ds.services.entry? p ∧ cs.globals.entry? p = ds.globals.entry? p ∧
    cs.translations.entry? p = ds.translations.entry? p

theorem Caches.agree_of_parts {cs ds : Caches}
    (h : ∀ {α : Type} (part : Part α), Tended (part.of .fresh) →
      ∀ p, FileCache.entry? (part.of cs) p = FileCache.entry? (part.of ds) p) : cs.Agree ds := by
  intro p
  exact ⟨h ⟨(·.hooks), fun _ _ => rfl⟩ .hooks p, h ⟨(·.routes), fun _ _ => rfl⟩ .routes p,
    h ⟨(·.services), fun _ _ => rfl⟩ .services p, h ⟨(·.globals), fun _ _ => rfl⟩ .globals p,
    h ⟨(·.translations), fun _ _ => rfl⟩ .translations p⟩

/-- **A site that is told of what happens agrees with one filled anew**, once for each file an
event, and a true one, came last. -/
theorem Site.agree_follow (id : Nat) {root : Path} (hr : root.isAbsolute = true) {tree : FileTree}
    (hw : tree.WellFormed) (ht : tree.Textual) {hs : List Happening}
    (hall : ∀ h ∈ hs, h.Allowed root) (hsettled : Settled root (treeAfter tree hs) hs) :
    (((Site.new id root).populate tree).follow tree hs).caches.Agree
      ((Site.new id root).populate (treeAfter tree hs)).caches :=
  Caches.agree_of_parts fun part hc => part.entry?_follow hc id hr hw ht hall hsettled

/-- Files come and go, and the site is told too early, too late and twice. -/
def settledRun : List Happening :=
  [.told ⟨"/site/web/core/globals.api.php"⟩ .deleted,
   .written ⟨"/site/web/core/globals.api.php"⟩ "<?php",
   .told ⟨"/site//web/core/globals.api.php"⟩ .changed,
   .written ⟨"/site/web/core/a.module"⟩ "<?php",
   .deleted ⟨"/site/web/core/globals.api.php"⟩,
   .told ⟨"/site/web/core/globals.api.php"⟩ .created,
   .told ⟨"/site/web/core/a.module"⟩ .deleted,
   .told ⟨"/elsewhere//a.module"⟩ .changed,
   .told ⟨"/site/web/core/globals.api.php"⟩ .deleted,
   .told ⟨"/site/web/core/a.module"⟩ .created,
   .told ⟨"/site/web/core/a.module"⟩ .changed]

theorem Site.agree_follow_settledRun :
    (((Site.new 1 ⟨"/site"⟩).populate
        (FileTree.empty.write ⟨"/site/web/core/globals.api.php"⟩ "".toUTF8)).follow
      (FileTree.empty.write ⟨"/site/web/core/globals.api.php"⟩ "".toUTF8) settledRun).caches.Agree
      ((Site.new 1 ⟨"/site"⟩).populate
        (treeAfter (FileTree.empty.write ⟨"/site/web/core/globals.api.php"⟩ "".toUTF8)
          settledRun)).caches := by
  have hempty : FileTree.empty.WellFormed := by decide
  have hnames : ∀ n ∈ FileTree.plainLocation ⟨"/site/web/core/globals.api.php"⟩, IsFileName n := by
    decide +kernel
  have hchange : ∀ p ∈ [(⟨"/site/web/core/globals.api.php"⟩ : Path), ⟨"/site/web/core/a.module"⟩],
      p.under ⟨"/site"⟩ = true ∧ .up ∉ p.steps := by decide +kernel
  have hglobals : Spelled ⟨"/site"⟩ ⟨"/site/web/core/globals.api.php"⟩ :=
    ⟨⟨"/site"⟩, ["web", "core", "globals.api.php"], by decide +kernel⟩
  have hdoubled : Spelled ⟨"/site"⟩ ⟨"/site//web/core/globals.api.php"⟩ :=
    ⟨⟨"/site//"⟩, ["web", "core", "globals.api.php"], by decide +kernel⟩
  have hmodule : Spelled ⟨"/site"⟩ ⟨"/site/web/core/a.module"⟩ :=
    ⟨⟨"/site"⟩, ["web", "core", "a.module"], by decide +kernel⟩
  have helsewhere : ¬(⟨"/elsewhere//a.module"⟩ : Path).under ⟨"/site"⟩ = true := by decide +kernel
  refine Site.agree_follow 1 (by decide) (hempty.write hnames _)
    (FileTree.Textual.empty.write hempty hnames "") ?_ (by decide +kernel)
  intro h hm
  simp only [settledRun, List.mem_cons, List.not_mem_nil, or_false] at hm
  rcases hm with rfl | rfl | rfl | rfl | rfl | rfl | rfl | rfl | rfl | rfl | rfl
  · exact fun _ => hglobals
  · exact hchange _ (by simp)
  · exact fun _ => hdoubled
  · exact hchange _ (by simp)
  · exact hchange _ (by simp)
  · exact fun _ => hglobals
  · exact fun _ => hmodule
  · exact fun hu => absurd hu helsewhere
  · exact fun _ => hglobals
  · exact fun _ => hmodule
  · exact fun _ => hmodule

/-! ## Other spellings -/

/-- A file is written, and the site is told of it under some spelling. -/
def strayRun (p : Path) : List Happening :=
  [.written ⟨"/site/web/core/globals.api.php"⟩ "<?php", .told p .created]

/-- All that is asked for but the spelling holds, and yet the site does not agree with one filled
anew. -/
def Missed (root : Path) (tree : FileTree) (hs : List Happening) : Prop :=
  (root.isAbsolute = true ∧ tree.WellFormed ∧ tree.Textual) ∧
    (∀ h ∈ hs, (∃ p event, h = .told p event) ∨ h.Allowed root) ∧
    Settled root (treeAfter tree hs) hs ∧
    ¬(((Site.new 1 root).populate tree).follow tree hs).caches.Agree
      ((Site.new 1 root).populate (treeAfter tree hs)).caches

/-- With a doubled separator or a `.` step **below the root** an event is lost, though it names the
file, comes last and is true. -/
theorem missed_strayRun :
    Missed ⟨"/site"⟩ .empty (strayRun ⟨"/site/web/core//globals.api.php"⟩) ∧
      Missed ⟨"/site"⟩ .empty (strayRun ⟨"/site/web/core/./globals.api.php"⟩) := by
  have hchange : (⟨"/site/web/core/globals.api.php"⟩ : Path).under ⟨"/site"⟩ = true ∧
      .up ∉ (⟨"/site/web/core/globals.api.php"⟩ : Path).steps := by decide +kernel
  have hmissed : ∀ p, Settled ⟨"/site"⟩ (treeAfter .empty (strayRun p)) (strayRun p) →
      ((((Site.new 1 ⟨"/site"⟩).populate .empty).follow .empty (strayRun p)).caches.globals.entry?
        ⟨"/site/web/core/globals.api.php"⟩).isSome = false →
      (((Site.new 1 ⟨"/site"⟩).populate (treeAfter .empty (strayRun p))).caches.globals.entry?
        ⟨"/site/web/core/globals.api.php"⟩).isSome = true →
      Missed ⟨"/site"⟩ .empty (strayRun p) := by
    intro p hsettled hstale hfound
    refine ⟨⟨by decide, by decide, .empty⟩, ?_, hsettled, fun hagree => ?_⟩
    · intro h hm
      rcases List.mem_cons.mp hm with rfl | hm
      · exact Or.inr hchange
      · exact Or.inl ⟨p, .created, List.mem_singleton.mp hm⟩
    · rw [(hagree ⟨"/site/web/core/globals.api.php"⟩).2.2.2.1, hfound] at hstale
      simp at hstale
  exact ⟨hmissed _ (by decide +kernel) (by decide +kernel) (by decide +kernel),
    hmissed _ (by decide +kernel) (by decide +kernel) (by decide +kernel)⟩

end SiteAssist
