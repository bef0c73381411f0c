import Mathlib.Data.List.Induction
import SiteAssist.Module
import SiteAssist.Proofs.FileTree.Place
import SiteAssist.Proofs.Path.Child
import SiteAssist.Proofs.Text.Bytes
import SiteAssist.Proofs.Text.Search

/-!
# The machine name of a file

A file lies in directories, and those from the root of the site on may hold info files
(`Around`, `HoldsInfo`).  The deepest of them that does gives the name of its module, and of several info
files there the one with the least name counts (`NearestName`).  The search goes up step by step:

* `nameAt?_eq_some_iff`, `nameAt?_eq_none_iff`: what **one directory** gives.
* `answers_nameFrom?`: what is found from a directory up, by one step and then the rest of the way.
* `machineName?_nearest`: so a file has the name that the **nearest directory with an info file** gives
  it.  Nothing else in the tree counts, and no more steps are made than the path has.
-/

namespace SiteAssist

namespace Path

variable {p d : Path}

/-! ## The directory above -/

/-- The spelling of the first steps of an absolute path has these steps. -/
theorem steps_ofSteps (hp : p.isAbsolute = true) {ss : List Step} (h : .root :: ss <+: p.steps) :
    (ofSteps (.root :: ss)).isAbsolute = true ∧ (ofSteps (.root :: ss)).steps = .root :: ss := by
  rw [steps_of_isAbsolute hp] at h
  have hpiece : ∀ s ∈ ss, '/' ∉ s.text.toList ∧ stepOf? s.text.toList = some s := by
    intro s hs
    obtain ⟨q, hq, hqs⟩ := List.mem_filterMap.mp ((List.cons_prefix_cons.mp h).2.subset hs)
    rw [FileTree.toList_text_of_stepOf? hqs]
    exact ⟨Text.notMem_of_mem_splitOn (List.mem_of_mem_drop hq), hqs⟩
  have hroot : (⟨"/"⟩ : Path).isAbsolute = true := rfl
  have hsep : ∀ n ∈ ss.map Step.text, '/' ∉ n.toList := by
    intro n hn
    obtain ⟨s, hs, rfl⟩ := List.mem_map.mp hn
    exact (hpiece s hs).1
  have hspell : ofSteps (.root :: ss) = extend ⟨"/"⟩ (ss.map Step.text) := by
    rw [ofSteps, List.foldl_cons, extend, List.foldl_map]
    rfl
  have hback : ((ss.map Step.text).map String.toList).filterMap stepOf? = ss := by
    rw [List.map_map, List.filterMap_map]
    exact (List.filterMap_congr fun s hs => (hpiece s hs).2).trans List.filterMap_some
  rw [hspell, steps_extend_pieces hroot hsep, hback]
  exact ⟨isAbsolute_extend_pieces hroot hsep, rfl⟩

/-- The directory above a path has all its steps but the last; only the root has none above. -/
theorem parent?_cases (hp : p.isAbsolute = true) :
    p.steps = [.root] ∧ p.parent? = none ∨
      ∃ d s, p.parent? = some d ∧ d.isAbsolute = true ∧ p.steps = d.steps ++ [s] := by
  have hsteps := steps_of_isAbsolute hp
  rcases List.eq_nil_or_concat (p.tailPieces.filterMap stepOf?) with hnil | ⟨ss, s, hss⟩
  · rw [hnil] at hsteps
    exact Or.inl ⟨hsteps, by rw [parent?, hsteps]; rfl⟩
  · rw [List.concat_eq_append] at hss
    rw [hss, ← List.cons_append] at hsteps
    have habove : .root :: ss <+: p.steps := ⟨[s], hsteps.symm⟩
    obtain ⟨habs, hdir⟩ := steps_ofSteps hp habove
    refine Or.inr ⟨_, s, ?_, habs, by rw [hdir, hsteps]⟩
    have hne : s ≠ .root := by
      rintro rfl
      have hmem : Step.root ∈ p.tailPieces.filterMap stepOf? := by
        rw [hss]
        exact List.mem_append_right _ List.mem_cons_self
      obtain ⟨q, _, hq⟩ := List.mem_filterMap.mp hmem
      exact (stepOf?_ne_lead q).1 hq
    rw [parent?, hsteps, List.getLast?_concat, List.dropLast_concat]
    cases s with
    | root => exact absurd rfl hne
    | here | up | name _ => rfl

/-- What is joined to a relative path stays relative, unless it is absolute itself. -/
theorem not_isAbsolute_join (hp : ¬p.isAbsolute = true) {t : String} (ht : t.toList.head? ≠ some '/') :
    ¬(p.join t).isAbsolute = true := by
  by_cases he : p.text = ""
  · rw [join, if_pos (Or.inr he)]
    simpa [isAbsolute] using ht
  · have hne : p.text.toList ≠ [] := fun hc => he (String.toList_eq_nil_iff.mp hc)
    obtain ⟨c, cs, hc⟩ := List.exists_cons_of_ne_nil hne
    rw [join, if_neg (by simp [ht, he])]
    rw [isAbsolute, hc] at hp
    split <;> simpa [isAbsolute, hc] using hp

theorem head?_text_of_mem_steps (hp : ¬p.isAbsolute = true) {s : Step} (hs : s ∈ p.steps) :
    s.text.toList.head? ≠ some '/' := by
  have hstep : ∀ q ∈ pieces p.text.toList, stepOf? q = some s → s.text.toList.head? ≠ some '/' := by
    intro q hq hqs hhead
    rw [FileTree.toList_text_of_stepOf? hqs] at hhead
    exact Text.notMem_of_mem_splitOn hq (List.mem_of_mem_head? hhead)
  obtain ⟨first, rest, hpieces⟩ := List.exists_cons_of_ne_nil (List.splitOn_ne_nil '/' p.text.toList)
  rw [steps_of_pieces hpieces, List.mem_append] at hs
  rw [pieces, hpieces] at hstep
  rcases hs with hs | hs
  · rw [leadSteps] at hs
    split at hs
    · rename_i hfirst
      have hrest : rest = [] := by
        by_contra hne
        exact hp ((isAbsolute_of_pieces (hfirst ▸ hpieces)).mpr hne)
      rw [if_pos hrest] at hs
      simp at hs
    · split at hs
      · rw [List.mem_singleton.mp hs]
        decide
      · exact hstep first List.mem_cons_self (Option.mem_toList.mp hs)
  · obtain ⟨q, hq, hqs⟩ := List.mem_filterMap.mp hs
    exact hstep q (List.mem_cons_of_mem first hq) hqs

/-- The directory above a relative path is named by a relative path. -/
theorem not_isAbsolute_parent? (hp : ¬p.isAbsolute = true) (h : p.parent? = some d) :
    ¬d.isAbsolute = true := by
  have hspell : ∀ (ss : List Step) (q : Path), ¬q.isAbsolute = true →
      (∀ s ∈ ss, s.text.toList.head? ≠ some '/') →
      ¬(ss.foldl (fun p s => p.join s.text) q).isAbsolute = true := by
    intro ss
    induction ss with
    | nil => intro q hq _; exact hq
    | cons s ss ih =>
      intro q hq hss
      exact ih _ (not_isAbsolute_join hq (hss s List.mem_cons_self))
        fun t ht => hss t (List.mem_cons_of_mem s ht)
  have hd : d = ofSteps p.steps.dropLast := by
    rw [parent?] at h
    split at h
    · cases h
    · cases h
    · exact (Option.some.inj h).symm
  rw [hd]
  exact hspell _ ⟨""⟩ (by decide) fun s hs => head?_text_of_mem_steps hp (List.dropLast_subset _ hs)

end Path

namespace Module

open FileTree (isFile_iff find?_eq_of_steps endsInStep_extend present_of_isFile)
open SiteAssist.Path (IsFileName)

variable {tree : FileTree} {root p d : Path} {stem m : String}

/-! ## Info files -/

/-- The directory holds an info file of that stem: a regular file, directly in it. -/
def HoldsInfo (tree : FileTree) (d : Path) (stem : String) : Prop :=
  stem ≠ "" ∧ '/' ∉ stem.toList ∧ tree.isFile (d.join (stem ++ infoSuffix)) = true

/-- The least stem of the info files in a directory, their bytes compared. -/
def LeastStem (tree : FileTree) (d : Path) (m : String) : Prop :=
  HoldsInfo tree d m ∧ ∀ stem, HoldsInfo tree d stem → m.toUTF8.toList ≤ stem.toUTF8.toList

theorem isFileName_info (h : '/' ∉ stem.toList) : IsFileName (stem ++ infoSuffix) := by
  have hlong : 9 ≤ (stem ++ infoSuffix).toList.length := by
    rw [String.toList_append, List.length_append]
    exact Nat.le_add_left 9 _
  have hne : ∀ t : String, t.toList.length < 9 → stem ++ infoSuffix ≠ t := by
    rintro t ht rfl
    omega
  refine ⟨hne _ (by decide), hne _ (by decide), hne _ (by decide), ?_⟩
  rw [String.toList_append, List.mem_append, not_or]
  exact ⟨h, by decide⟩

theorem HoldsInfo.isAbsolute (h : HoldsInfo tree d stem) : d.isAbsolute = true :=
  FileTree.isAbsolute_of_present_join (isFileName_info h.2.1) (present_of_isFile h.2.2)

/-- What a directory holds does not depend on how it is spelled. -/
theorem HoldsInfo.of_steps {d' : Path} (h : HoldsInfo tree d stem) (hs : d'.steps = d.steps) :
    HoldsInfo tree d' stem := by
  have hd := h.isAbsolute
  have hd' : d'.isAbsolute = true :=
    Path.isAbsolute_of_steps (hs.trans (Path.steps_of_isAbsolute hd))
  have hn := isFileName_info h.2.1
  have hend (q : Path) (hq : q.isAbsolute = true) :
      FileTree.EndsInStep (q.join (stem ++ infoSuffix)) := by
    have := endsInStep_extend hq (List.cons_ne_nil (stem ++ infoSuffix) []) (by simpa using hn)
    rwa [Path.extend_cons, Path.extend_nil] at this
  refine ⟨h.1, h.2.1, ?_⟩
  obtain ⟨c, hc⟩ := isFile_iff.mp h.2.2
  refine isFile_iff.mpr ⟨c, hc ▸ ?_⟩
  refine find?_eq_of_steps (Path.isAbsolute_join hd' hn.2.2.2) (Path.isAbsolute_join hd hn.2.2.2)
    (hend d' hd') (hend d hd) ?_
  rw [Path.steps_join hd' hn.2.2.2, Path.steps_join hd hn.2.2.2, hs]

theorem LeastStem.eq {n : String} (h : LeastStem tree d m) (h' : LeastStem tree d n) : m = n := by
  have hle := h.2 n h'.1
  have hge := h'.2 m h.1
  rw [Text.toList_toUTF8, Text.toList_toUTF8, ← Text.ordered_iff_bytes] at hle hge
  exact String.toList_injective (Text.ordered_antisymm hle hge)

theorem LeastStem.of_steps {d' : Path} (h : LeastStem tree d m) (hs : d'.steps = d.steps) :
    LeastStem tree d' m :=
  ⟨h.1.of_steps hs, fun stem hstem => h.2 stem (hstem.of_steps hs.symm)⟩

/-! ## One directory -/

/-- The texts that stand before the suffix in the names of regular files. -/
def stemsIn (tree : FileTree) (d : Path) : List (List Char) :=
  (tree.names d).filterMap fun file =>
    if tree.isFile (d.join file) then
      (Text.stripSuffix? infoSuffix.toList file.toList).filter (!·.isEmpty)
    else none

theorem mem_stemsIn (hw : tree.WellFormed) : stem.toList ∈ stemsIn tree d ↔ HoldsInfo tree d stem := by
  rw [stemsIn, List.mem_filterMap]
  constructor
  · rintro ⟨file, hmem, hfile⟩
    split at hfile
    · rename_i hreg
      obtain ⟨hstrip, hne⟩ := Option.filter_eq_some_iff.mp hfile
      have hname : file = stem ++ infoSuffix := by
        rw [← String.toList_inj, String.toList_append]
        exact Text.stripSuffix?_eq_some_iff.mp hstrip
      have hsep := (hw.isFileName_of_mem_names hmem).2.2.2
      rw [hname, String.toList_append, List.mem_append, not_or] at hsep
      refine ⟨?_, hsep.1, hname ▸ hreg⟩
      rintro rfl
      simp at hne
    · cases hfile
  · intro h
    refine ⟨stem ++ infoSuffix, ?_, ?_⟩
    · exact (FileTree.present_join_iff h.isAbsolute (isFileName_info h.2.1)).mp (present_of_isFile h.2.2)
    · rw [if_pos h.2.2, Option.filter_eq_some_iff, Text.stripSuffix?_eq_some_iff, String.toList_append]
      refine ⟨rfl, ?_⟩
      simpa using h.1

theorem nameAt?_eq (tree : FileTree) (d : Path) :
    nameAt? tree d = (stemsIn tree d).foldl (fun least name =>
      match least with
      | none => some (String.ofList name)
      | some l => if Text.ordered l.toList name then some l else some (String.ofList name)) none := rfl

/-- The choice among several stems ends with the least of them. -/
theorem nameAt?_cases (tree : FileTree) (d : Path) :
    stemsIn tree d = [] ∧ nameAt? tree d = none ∨
      ∃ m, nameAt? tree d = some m ∧ m.toList ∈ stemsIn tree d ∧
        ∀ x ∈ stemsIn tree d, Text.ordered m.toList x = true := by
  rw [nameAt?_eq]
  induction stemsIn tree d using List.reverseRecOn with
  | nil => exact Or.inl ⟨rfl, rfl⟩
  | append_singleton xs x ih =>
    right
    have hrefl : Text.ordered x x = true := (Text.ordered_total x x).elim id id
    rw [List.foldl_append]
    rcases ih with ⟨rfl, hfold⟩ | ⟨m, hfold, hmem, hleast⟩
    · exact ⟨String.ofList x, rfl, by simp, by simpa using hrefl⟩
    · rw [hfold, List.foldl_cons, List.foldl_nil]
      cases hord : Text.ordered m.toList x with
      | true =>
        refine ⟨m, by simp [hord], List.mem_append_left _ hmem, fun y hy => ?_⟩
        rcases List.mem_append.mp hy with hy | hy
        · exact hleast y hy
        · rwa [List.mem_singleton.mp hy]
      | false =>
        have hlt : Text.ordered x m.toList = true :=
          (Text.ordered_total m.toList x).resolve_left (by simp [hord])
        refine ⟨String.ofList x, by simp [hord], by simp, fun y hy => ?_⟩
        rw [String.toList_ofList]
        rcases List.mem_append.mp hy with hy | hy
        · exact Text.ordered_trans hlt (hleast y hy)
        · rwa [List.mem_singleton.mp hy]

/-- **A directory gives the least stem** of the info files that it holds. -/
theorem nameAt?_eq_some_iff (hw : tree.WellFormed) : nameAt? tree d = some m ↔ LeastStem tree d m := by
  have hleast : ∀ n, n.toList ∈ stemsIn tree d → (∀ x ∈ stemsIn tree d, Text.ordered n.toList x = true) →
      LeastStem tree d n := by
    intro n hmem hall
    refine ⟨(mem_stemsIn hw).mp hmem, fun stem hstem => ?_⟩
    rw [Text.toList_toUTF8, Text.toList_toUTF8, ← Text.ordered_iff_bytes]
    exact hall _ ((mem_stemsIn hw).mpr hstem)
  constructor
  · intro h
    rcases nameAt?_cases tree d with ⟨_, hnone⟩ | ⟨n, hsome, hmem, hall⟩
    · rw [h] at hnone
      cases hnone
    · obtain rfl := Option.some.inj (h.symm.trans hsome)
      exact hleast m hmem hall
  · intro h
    rcases nameAt?_cases tree d with ⟨hnil, _⟩ | ⟨n, hsome, hmem, hall⟩
    · have := (mem_stemsIn hw).mpr h.1
      rw [hnil] at this
      cases this
    · rw [hsome, (hleast n hmem hall).eq h]

theorem nameAt?_eq_none_iff (hw : tree.WellFormed) :
    nameAt? tree d = none ↔ ∀ stem, ¬HoldsInfo tree d stem := by
  constructor
  · intro h stem hstem
    rcases nameAt?_cases tree d with ⟨hnil, _⟩ | ⟨n, hsome, _⟩
    · have := (mem_stemsIn hw).mpr hstem
      rw [hnil] at this
      cases this
    · rw [h] at hsome
      cases hsome
  · intro h
    cases hn : nameAt? tree d with
    | none => rfl
    | some n => exact absurd ((nameAt?_eq_some_iff hw).mp hn).1 (h n)

/-! ## From a directory up -/

/-- The directories from one up to the root. -/
def Within (root dir d : Path) : Prop :=
  root.steps <+: d.steps ∧ d.steps <+: dir.steps

/-- The directories around a path: those above it, from the root on. -/
def Around (root p d : Path) : Prop :=
  root.steps <+: d.steps ∧ d.steps <+: p.steps ∧ d.steps ≠ p.steps

/-- The name that the deepest of the directories with an info file gives. -/
def NearestName (tree : FileTree) (Dirs : Path → Prop) (m : String) : Prop :=
  ∃ d, Dirs d ∧ LeastStem tree d m ∧
    ∀ d' stem, Dirs d' → HoldsInfo tree d' stem → d'.steps.length ≤ d.steps.length

/-- The answer is what the directories give: their nearest name, or nothing if none of them has an
info file. -/
def Answers (tree : FileTree) (Dirs : Path → Prop) : Option String → Prop
  | some m => NearestName tree Dirs m
  | none => ∀ d stem, Dirs d → ¬HoldsInfo tree d stem

/-- Only directories with an info file count. -/
theorem Answers.congr {Dirs Dirs' : Path → Prop} {r : Option String} (hr : Answers tree Dirs r)
    (h : ∀ d stem, HoldsInfo tree d stem → (Dirs d ↔ Dirs' d)) : Answers tree Dirs' r := by
  cases r with
  | none => exact fun d stem hd hinfo => hr d stem ((h d stem hinfo).mpr hd) hinfo
  | some m =>
    obtain ⟨d, hd, hleast, hdeep⟩ := hr
    exact ⟨d, (h d m hleast.1).mp hd, hleast,
      fun d' stem hd' hinfo => hdeep d' stem ((h d' stem hinfo).mpr hd') hinfo⟩

/-- Directories on the way to one path give one answer. -/
theorem Answers.eq_some_iff {Dirs : Path → Prop} {r : Option String} (hr : Answers tree Dirs r)
    {ss : List Path.Step} (hway : ∀ d, Dirs d → d.steps <+: ss) :
    r = some m ↔ NearestName tree Dirs m := by
  constructor
  · rintro rfl
    exact hr
  · rintro ⟨d, hd, hleast, hdeep⟩
    cases r with
    | none => exact absurd hleast.1 (hr d m hd)
    | some n =>
      obtain ⟨d', hd', hleast', hdeep'⟩ := hr
      have hlength : d'.steps.length = d.steps.length :=
        Nat.le_antisymm (hdeep d' n hd' hleast'.1) (hdeep' d m hd hleast.1)
      have hsteps : d'.steps = d.steps :=
        (List.prefix_of_prefix_length_le (hway d' hd') (hway d hd) hlength.le).eq_of_length hlength
      rw [(hleast'.of_steps hsteps.symm).eq hleast]

theorem Answers.isSome_iff {Dirs : Path → Prop} {r : Option String} (hr : Answers tree Dirs r) :
    r.isSome = true ↔ ∃ d stem, Dirs d ∧ HoldsInfo tree d stem := by
  cases r with
  | none => exact iff_of_false nofun fun ⟨d, stem, hd, hinfo⟩ => hr d stem hd hinfo
  | some m =>
    obtain ⟨d, hd, hleast, _⟩ := hr
    exact iff_of_true rfl ⟨d, m, hd, hleast.1⟩

/-- A relative directory gives nothing, and neither do those above it. -/
theorem nameFrom?_of_not_isAbsolute (hw : tree.WellFormed) : ∀ (fuel : Nat) {dir : Path},
    ¬dir.isAbsolute = true → nameFrom? tree root fuel dir = none := by
  intro fuel
  induction fuel with
  | zero => intros; rfl
  | succ fuel ih =>
    intro dir hdir
    have hnone : nameAt? tree dir = none :=
      (nameAt?_eq_none_iff hw).mpr fun _ h => hdir h.isAbsolute
    rw [nameFrom?, hnone]
    cases hup : dir.parent? with
    | none => simp
    | some d => simp [ih (Path.not_isAbsolute_parent? hdir hup)]

/-- What is found from a directory up is **what the directories up to the root give**.  As many looks
are enough as the directory has steps. -/
theorem answers_nameFrom? (hw : tree.WellFormed) : ∀ (fuel : Nat) {dir : Path},
    dir.isAbsolute = true → dir.steps.length ≤ fuel →
      Answers tree (Within root dir) (nameFrom? tree root fuel dir) := by
  intro fuel
  induction fuel with
  | zero =>
    intro dir hdir hfuel
    rw [Path.steps_of_isAbsolute hdir] at hfuel
    exact absurd hfuel (Nat.not_succ_le_zero _)
  | succ fuel ih =>
    intro dir hdir hfuel
    rw [nameFrom?]
    split
    · -- the directory lies outside the root, and so do all above it
      rename_i hout
      exact fun d _ hd _ => hout (Path.under_iff.mpr (hd.1.trans hd.2))
    · rename_i hunder
      have hin : root.steps <+: dir.steps := Path.under_iff.mp (not_not.mp hunder)
      cases hname : nameAt? tree dir with
      | some m =>
        exact ⟨dir, ⟨hin, List.prefix_rfl⟩, (nameAt?_eq_some_iff hw).mp hname,
          fun d' _ hd' _ => hd'.2.length_le⟩
      | none =>
        -- no directory spelled with the same steps holds an info file, so the rest of the way counts
        have hnot : ∀ d stem, HoldsInfo tree d stem → d.steps ≠ dir.steps := fun d stem h hs =>
          (nameAt?_eq_none_iff hw).mp hname stem (h.of_steps hs.symm)
        simp only
        split
        · rename_i hsame
          intro d stem hd hinfo
          rw [Within, ← Path.same_iff.mp hsame] at hd
          exact hnot d stem hinfo (hd.2.eq_of_length_le hd.1.length_le)
        · rcases Path.parent?_cases hdir with ⟨hsteps, hup⟩ | ⟨d, s, hup, habs, hsteps⟩
          · rw [hup]
            intro d stem hd hinfo
            refine hnot d stem hinfo (hd.2.eq_of_length_le ?_)
            rw [hsteps, Path.steps_of_isAbsolute hinfo.isAbsolute]
            exact Nat.succ_le_succ (Nat.zero_le _)
          · rw [hup]
            have hlength : d.steps.length ≤ fuel := by
              rw [hsteps, List.length_append] at hfuel
              exact Nat.le_of_succ_le_succ hfuel
            refine (ih habs hlength).congr fun d' stem hinfo => and_congr_right fun _ => ?_
            rw [hsteps, List.prefix_concat_iff, ← hsteps]
            exact (or_iff_right (hnot d' stem hinfo)).symm

/-- The file's name is what the directories around it give. -/
theorem answers_machineName? (hw : tree.WellFormed) {fuel : Nat} (hfuel : p.steps.length ≤ fuel) :
    Answers tree (Around root p) (p.parent?.bind (nameFrom? tree root fuel)) := by
  by_cases hp : p.isAbsolute = true
  · rcases Path.parent?_cases hp with ⟨hsteps, hup⟩ | ⟨dir, s, hup, habs, hsteps⟩
    · rw [hup]
      intro d stem hd hinfo
      refine hd.2.2 (hd.2.1.eq_of_length_le ?_)
      rw [hsteps, Path.steps_of_isAbsolute hinfo.isAbsolute]
      exact Nat.succ_le_succ (Nat.zero_le _)
    · rw [hup]
      have hlength : dir.steps.length ≤ fuel := by
        rw [hsteps, List.length_append] at hfuel
        exact Nat.le_of_succ_le hfuel
      refine (answers_nameFrom? hw fuel habs hlength).congr fun d _ _ => and_congr_right fun _ => ?_
      rw [hsteps, List.prefix_concat_iff]
      constructor
      · intro h
        refine ⟨Or.inr h, fun hc => ?_⟩
        have := h.length_le
        rw [hc, List.length_append] at this
        exact Nat.not_succ_le_self _ this
      · exact fun ⟨h, hne⟩ => h.resolve_left hne
  · have hnone : p.parent?.bind (nameFrom? tree root fuel) = none := by
      cases hup : p.parent? with
      | none => rfl
      | some d => exact nameFrom?_of_not_isAbsolute hw fuel (Path.not_isAbsolute_parent? hp hup)
    rw [hnone]
    intro d stem hd hinfo
    obtain ⟨ss, hss⟩ := hd.2.1
    rw [Path.steps_of_isAbsolute hinfo.isAbsolute] at hss
    exact hp (Path.isAbsolute_of_steps hss.symm)

/-- **The name of a file comes from the nearest directory around it with an info file.**  It is the
least stem there.  The way up ends, there is a name just if such a directory exists, and in another tree
the file has the same name if those directories hold the same regular files. -/
theorem machineName?_nearest (hw : tree.WellFormed) (root p : Path) :
    (∀ fuel, p.steps.length ≤ fuel →
      p.parent?.bind (nameFrom? tree root fuel) = machineName? tree root p) ∧
    ((machineName? tree root p).isSome = true ↔ ∃ d stem, Around root p d ∧ HoldsInfo tree d stem) ∧
    (∀ m, machineName? tree root p = some m ↔ NearestName tree (Around root p) m) ∧
    ∀ tree' : FileTree, tree'.WellFormed →
      (∀ d, Around root p d → ∀ n, IsFileName n → tree'.isFile (d.join n) = tree.isFile (d.join n)) →
      machineName? tree' root p = machineName? tree root p := by
  have hnearest (t : FileTree) (ht : t.WellFormed) {fuel : Nat} (hfuel : p.steps.length ≤ fuel)
      (m : String) :
      p.parent?.bind (nameFrom? t root fuel) = some m ↔ NearestName t (Around root p) m :=
    (answers_machineName? ht hfuel).eq_some_iff fun _ hd => hd.2.1
  have henough : p.steps.length ≤ p.steps.length + 1 := Nat.le_succ _
  refine ⟨fun fuel hfuel => ?_, (answers_machineName? hw henough).isSome_iff, hnearest tree hw henough,
    fun tree' hw' hagree => ?_⟩
  · ext m
    exact (hnearest tree hw hfuel m).trans (hnearest tree hw henough m).symm
  · have hholds : ∀ d stem, Around root p d → (HoldsInfo tree' d stem ↔ HoldsInfo tree d stem) :=
      fun d stem hd => and_congr_right fun _ => and_congr_right fun hsep => by
        rw [hagree d hd _ (isFileName_info hsep)]
    ext m
    refine (hnearest tree' hw' henough m).trans (Iff.trans ?_ (hnearest tree hw henough m).symm)
    refine exists_congr fun d => and_congr_right fun hd => and_congr ?_ ?_
    · exact and_congr (hholds d m hd) (forall_congr' fun stem => imp_congr_left (hholds d stem hd))
    · exact forall_congr' fun d' => forall_congr' fun stem => imp_congr_right fun hd' =>
        imp_congr_left (hholds d' stem hd')

/-- A site in a directory with an info file of its own.  Its module has two info files and a directory
that is named like one. -/
def nestedTree : FileTree :=
  ⟨[(["w"], .directory), (["w", "outer.info.yml"], .file "".toUTF8),
    (["w", "s"], .directory), (["w", "s", "m"], .directory),
    (["w", "s", "m", "a-b.info.yml"], .file "".toUTF8), (["w", "s", "m", "a.info.yml"], .file "".toUTF8),
    (["w", "s", "m", "A.info.yml"], .directory), (["w", "s", "m", "src"], .directory)]⟩

/-- What lies in the module has the module's name, what lies beside it has none: the info file
outside of the root does not count. -/
theorem machineName?_nearest_nested :
    machineName? nestedTree ⟨"/w/s"⟩ ⟨"/w/s/m/src/X.php"⟩ = some "a" ∧
      NearestName nestedTree (Around ⟨"/w/s"⟩ ⟨"/w/s/m/src/X.php"⟩) "a" ∧
      ∀ d stem, Around ⟨"/w/s"⟩ ⟨"/w/s/X.php"⟩ d → ¬HoldsInfo nestedTree d stem := by
  have hw : nestedTree.WellFormed := by decide +kernel
  obtain ⟨_, _, hname, _⟩ := machineName?_nearest hw ⟨"/w/s"⟩ ⟨"/w/s/m/src/X.php"⟩
  obtain ⟨_, hsome, _⟩ := machineName?_nearest hw ⟨"/w/s"⟩ ⟨"/w/s/X.php"⟩
  have hrun : machineName? nestedTree ⟨"/w/s"⟩ ⟨"/w/s/m/src/X.php"⟩ = some "a" := by decide +kernel
  have hnone : ¬(machineName? nestedTree ⟨"/w/s"⟩ ⟨"/w/s/X.php"⟩).isSome = true := by decide +kernel
  refine ⟨hrun, (hname "a").mp hrun, fun d stem hd hinfo => hnone (hsome.mpr ⟨d, stem, hd, hinfo⟩)⟩

end Module

end SiteAssist
