import SiteAssist.Composer
import SiteAssist.Proofs.Json.Members
import SiteAssist.Proofs.Json.Reading
import SiteAssist.Proofs.Text.Numeral

/-!
# The version that a lock file tells of

Which packages a lock file lists is said by how it is written (`LockText`), and `lockFile` reads them from
exactly such texts (`run_lockFile_eq_ok_iff`).  `coreVersion?` takes the first package with the core's name,
and of its version the number before the first dot: the version is written as `v`s, a numeral, and then a
dot or nothing more (`Major`).  Which number that is, if any, is said without a reader and without a search
(`Locks`, `coreVersion?_eq_some_iff`).
-/

namespace SiteAssist.Composer

open Json (StringText ListText RecordText Reads Takes)

/-! ## What is written -/

/-- The text of a locked package: a record that holds its name and its version. -/
def PackageText (p : String × String) (s : List Char) : Prop :=
  ∃ found, RecordText ["name", "version"] false (fun _ => StringText) found s ∧
    ("name", p.1) ∈ found ∧ ("version", p.2) ∈ found

/-- The text of a lock file with those packages: a record with a list of them, or without one. -/
def LockText (packages : List (String × String)) (s : List Char) : Prop :=
  ∃ found, RecordText ["packages"] true (fun _ => ListText PackageText) found s ∧
    (("packages", packages) ∈ found ∨ found = [] ∧ packages = [])

/-- The major version of a version as it is written. -/
def Major (version : String) (n : Nat) : Prop :=
  ∃ vs numeral rest, version.toList = vs ++ (numeral ++ rest) ∧ (∀ c ∈ vs, c = 'v') ∧
    Text.Numeral n numeral ∧ n < Nat.pow 2 32 ∧ (rest = [] ∨ ∃ minor, rest = '.' :: minor)

/-- A text is a lock file that lists those packages, with blanks around. -/
def Lists (text : String) (packages : List (String × String)) : Prop :=
  ∃ u t v, Json.Blank u ∧ LockText packages t ∧ Json.Blank v ∧ text.toList = u ++ (t ++ v)

/-- A text is a lock file that holds the core at a version: the first package of the core's name has
that major version. -/
def Locks (text : String) (n : Nat) : Prop :=
  ∃ before version after, Lists text (before ++ (lockedCore, version) :: after) ∧
    (∀ p ∈ before, p.1 ≠ lockedCore) ∧ Major version n

/-! ## What is read -/

/-- A package takes what is found under a name. -/
def Locked.take (p : Locked) (f : String × String) : Locked :=
  if f.1 = "name" then { p with name := some f.2 } else { p with version := some f.2 }

/-- What a package holds is what was found in it, where no name is found twice. -/
theorem Locked.foldl_take {found : List (String × String)} (hnodup : (found.map Prod.fst).Nodup)
    (hnames : ∀ f ∈ found, f.1 ∈ ["name", "version"]) (p : Locked) :
    found.foldl take p = ⟨(found.lookup "name").or p.name, (found.lookup "version").or p.version⟩ := by
  induction found generalizing p with
  | nil => rfl
  | cons f found ih =>
    obtain ⟨key, value⟩ := f
    obtain ⟨hkey, hnodup⟩ := List.nodup_cons.mp hnodup
    obtain ⟨hname, hnames⟩ := List.forall_mem_cons.mp hnames
    rw [List.foldl_cons, ih hnodup hnames, Json.lookup_cons_if, Json.lookup_cons_if]
    have hlookup : found.lookup key = none := Json.lookup_eq_none hkey
    rcases List.mem_pair.mp hname with rfl | rfl
    · simp [take, hlookup]
    · simp [take, hlookup]

theorem takes_lockedFields (depth : Nat) :
    Takes Locked.fields (fun _ => StringText) Locked.take depth := by
  refine List.forall_mem_cons.mpr ⟨fun p => ?_, List.forall_mem_cons.mpr ⟨fun p => ?_, List.forall_mem_nil _⟩⟩
  · exact Json.reads_string.map fun x => { p with name := some x }
  · exact Json.reads_string.map fun x => { p with version := some x }

/-- A locked package is read exactly where it is written. -/
theorem reads_locked {depth : Nat} (hdepth : 0 < depth) : Reads Locked.read PackageText (depth + 1) := by
  have hneeded : ∀ field ∈ Locked.fields, field.defaulted = false := by simp [Locked.fields]
  refine (((takes_lockedFields depth).record hdepth hneeded {}).demand _).congr fun p t => ?_
  have hholds {found : List (String × String)}
      (h : RecordText ["name", "version"] false (fun _ => StringText) found t) :
      (((found.foldl Locked.take {}).name.bind fun n =>
        (found.foldl Locked.take {}).version.map fun v => (n, v)) = some p ↔
        ("name", p.1) ∈ found ∧ ("version", p.2) ∈ found) := by
    obtain ⟨hnodup, hnames⟩ := h.names (by decide)
    rw [Locked.foldl_take hnodup hnames, Json.mem_iff_lookup hnodup, Json.mem_iff_lookup hnodup]
    simp [Option.bind_eq_some_iff, Prod.ext_iff]
  constructor
  · rintro ⟨_, ⟨found, htext, rfl⟩, heq⟩
    exact ⟨found, htext, (hholds htext).mp heq⟩
  · rintro ⟨found, htext, hmem⟩
    exact ⟨_, ⟨found, htext, rfl⟩, (hholds htext).mpr hmem⟩

theorem takes_lockFields {depth : Nat} (hdepth : 0 < depth) :
    Takes lockFields (fun _ => ListText PackageText) (fun _ f => f.2) (depth + 2) := by
  refine List.forall_mem_cons.mpr ⟨fun _ => ?_, List.forall_mem_nil _⟩
  refine ((reads_locked hdepth).list (Nat.succ_pos _)).congr fun packages t => ?_
  simp

/-- One name leaves room for one value, or none. -/
theorem eq_nil_or_singleton {α : Type} {name : String} {found : List (String × α)}
    (hnodup : (found.map Prod.fst).Nodup) (hnames : ∀ f ∈ found, f.1 ∈ [name]) :
    found = [] ∨ ∃ a, found = [(name, a)] := by
  simp only [List.mem_singleton] at hnames
  match found with
  | [] => exact Or.inl rfl
  | [(key, a)] =>
    obtain rfl := hnames (key, a) List.mem_cons_self
    exact Or.inr ⟨a, rfl⟩
  | f :: g :: found =>
    have heq : f.1 = g.1 := (hnames f (by simp)).trans (hnames g (by simp)).symm
    simp [heq] at hnodup

/-- The packages of a lock file are read exactly where they are written. -/
theorem reads_lockFile {depth : Nat} (hdepth : 0 < depth) : Reads lockFile LockText (depth + 3) := by
  have hoptional : ∀ field ∈ lockFields, field.defaulted = true := by simp [lockFields]
  refine ((takes_lockFields hdepth).record (Nat.succ_pos _) hoptional []).congr fun packages t => ?_
  refine exists_congr fun found => and_congr_right fun htext => ?_
  obtain ⟨hnodup, hnames⟩ := htext.names (by decide)
  rcases eq_nil_or_singleton hnodup hnames with rfl | ⟨list, rfl⟩
  · simp
  · simp

theorem run_lockFile_eq_ok_iff {text : String} {packages : List (String × String)} :
    lockFile.run text = .ok packages ↔ Lists text packages :=
  (@reads_lockFile 125 (by decide)).run_eq_ok_iff

/-- `v`s before a numeral are dropped, and what follows its dot is cut off. -/
theorem takeWhile_dropWhile_numeral {vs numeral rest : List Char} {n : Nat} (hvs : ∀ c ∈ vs, c = 'v')
    (hnumeral : Text.Numeral n numeral) (hrest : rest = [] ∨ ∃ minor, rest = '.' :: minor) :
    ((vs ++ (numeral ++ rest)).dropWhile (· = 'v')).takeWhile (· ≠ '.') = numeral := by
  obtain ⟨c, cs, rfl⟩ := List.exists_cons_of_ne_nil hnumeral.ne_nil
  have hmem : ∀ d ∈ c :: cs, d ≠ 'v' ∧ d ≠ '.' := fun d hd =>
    ⟨hnumeral.ne_of_mem hd (by decide) (by decide), hnumeral.ne_of_mem hd (by decide) (by decide)⟩
  have hdrop : (vs ++ (c :: cs ++ rest)).dropWhile (· = 'v') = c :: cs ++ rest := by
    rw [List.dropWhile_append_of_pos (fun d hd => decide_eq_true (hvs d hd)), List.cons_append,
      List.dropWhile_cons_of_neg (by simpa using (hmem c List.mem_cons_self).1)]
  have hend : rest.takeWhile (· ≠ '.') = [] := by
    rcases hrest with rfl | ⟨minor, rfl⟩
    · rfl
    · exact List.takeWhile_cons_of_neg (by simp)
  rw [hdrop, List.takeWhile_append_of_pos (fun d hd => decide_eq_true (hmem d hd).2), hend,
    List.append_nil]

theorem majorOf?_eq_some_iff {version : String} {n : Nat} :
    majorOf? version = some n ↔ Major version n := by
  rw [majorOf?, Text.boundedNat?_eq_some_iff]
  constructor
  · rintro ⟨hlt, hnumeral⟩
    refine ⟨version.toList.takeWhile (· = 'v'), _,
      (version.toList.dropWhile (· = 'v')).dropWhile (· ≠ '.'), ?_, fun c hc => ?_, hnumeral, hlt, ?_⟩
    · rw [List.takeWhile_append_dropWhile, List.takeWhile_append_dropWhile]
    · simpa using List.mem_takeWhile_imp hc
    · have hhead := List.head?_dropWhile_not (· ≠ '.') (version.toList.dropWhile (· = 'v'))
      generalize (version.toList.dropWhile (· = 'v')).dropWhile (· ≠ '.') = rest at hhead ⊢
      cases rest with
      | nil => exact Or.inl rfl
      | cons c minor => exact Or.inr ⟨minor, by simpa using hhead⟩
  · rintro ⟨vs, numeral, rest, htext, hvs, hnumeral, hlt, hrest⟩
    rw [htext, takeWhile_dropWhile_numeral hvs hnumeral hrest]
    exact ⟨hlt, hnumeral⟩

/-- **The core version that is found** is the one the text holds the core at. -/
theorem coreVersion?_eq_some_iff {text : String} {n : Nat} : coreVersion? text = some n ↔ Locks text n := by
  simp only [coreVersion?, Locks, ← run_lockFile_eq_ok_iff]
  cases lockFile.run text with
  | error e => simp
  | ok packages =>
    simp only [Option.bind_eq_some_iff, majorOf?_eq_some_iff, Except.ok.injEq]
    constructor
    · rintro ⟨⟨name, version⟩, hfind, hmajor⟩
      obtain ⟨hname, before, after, heq, hbefore⟩ := List.find?_eq_some_iff_append.mp hfind
      obtain rfl : name = lockedCore := of_decide_eq_true hname
      refine ⟨before, version, after, heq, fun p hp => ?_, hmajor⟩
      simpa using hbefore p hp
    · rintro ⟨before, version, after, heq, hbefore, hmajor⟩
      refine ⟨(lockedCore, version), List.find?_eq_some_iff_append.mpr ⟨by simp, before, after, heq, ?_⟩,
        hmajor⟩
      exact fun p hp => by simpa using hbefore p hp

end SiteAssist.Composer
