import Mathlib.Data.List.Infix
import SiteAssist.Proofs.Glob.Expansion
import SiteAssist.Proofs.Glob.Grammar

/-!
# Globs below a folder

A glob stands for a text if one of the texts that its brace groups expand to reads as tokens that do
(`StandsFor`).  To ask for what a pattern stands for below a folder, the path of the folder is written in
front of the pattern, and is then read as a part of the glob.

* `standsFor_below`: where the path holds no brace group, no class and no `**` (`SelfReading`), it stands for
  itself at least, and **the glob stands for what the pattern stands for, below the folder**.

A path with a bracket is read as a class, and need not stand for itself.
-/

namespace SiteAssist.Glob

variable {lead s t rest : List Char} {ts : List Token}

/-- A glob with brace groups stands for a text. -/
def StandsFor (glob text : List Char) : Prop :=
  ∃ alternative ∈ expandBraces glob, ∃ ts, Reads true alternative ts ∧ Denotes ts text

theorem reads_iff : Reads true s ts ↔ parseFrom 0 true s (s.length + 1) = .ok ts :=
  ⟨fun h => parseFrom_of_reads h _ 0 (Nat.lt_succ_self _),
    fun h => reads_of_parseFrom _ 0 true s ts (Nat.lt_succ_self _) h⟩

/-- Some alternative is read and matched; the kernel evaluates this faster than a bounded `∃`. -/
theorem any_expandBraces_iff {glob text : List Char} :
    (expandBraces glob).any (fun s =>
      (parseFrom 0 true s (s.length + 1)).toOption.any (matchTokens · text == .full)) = true ↔
    StandsFor glob text := by
  rw [List.any_eq_true]
  refine exists_congr fun s => and_congr_right fun _ => ?_
  simp only [reads_iff]
  cases hparse : parseFrom 0 true s (s.length + 1) with
  | error e => simp [Except.toOption]
  | ok ts =>
    have hfull := (reliable ts true (reads_iff.mpr hparse).placed).full text
    simp [Except.toOption, hfull]

instance (glob text : List Char) : Decidable (StandsFor glob text) :=
  decidable_of_iff _ any_expandBraces_iff

/-! ## Texts in front -/

theorem hasGroup_append (h : '\x7b' ∉ lead) : HasGroup (lead ++ s) ↔ HasGroup s := by
  induction lead with
  | nil => rfl
  | cons c lead ih =>
    obtain ⟨hc, hlead⟩ := not_or.mp (mt List.mem_cons.mpr h)
    rw [← ih hlead, HasGroup, List.cons_append, List.cons_sublist_cons', or_iff_left fun h => hc h.1]
    rfl

/-- What stands in front of all groups is in front of each expansion. -/
theorem expandBraces_append (h : '\x7b' ∉ lead) :
    expandBraces (lead ++ s) = (expandBraces s).map (lead ++ ·) := by
  have hexpands : ∀ {s ts}, Expands s ts → Expands (lead ++ s) (ts.map (lead ++ ·)) := by
    intro s ts hs
    induction hs with
    | plain hno => exact .plain (mt (hasGroup_append h).mp hno)
    | @group s before options after results first _ ih =>
      rw [List.map_flatMap]
      refine .group ⟨by rw [first.eq, List.append_assoc], ?_, first.closing_notMem⟩ fun option ho => ?_
      · exact fun hm => (List.mem_append.mp hm).elim h first.opening_notMem
      · rw [List.append_assoc lead, List.append_assoc lead]
        exact ih option ho
  exact (expands_iff.mp (hexpands (expands_iff.mpr rfl))).symm

/-- A text that stands for itself at least where it leads a glob: it holds no brace group, no class and
no `**`. -/
structure SelfReading (lead : List Char) : Prop where
  brace : '\x7b' ∉ lead
  bracket : '[' ∉ lead
  stars : ¬['*', '*'] <:+: lead

instance (lead : List Char) : Decidable (SelfReading lead) :=
  decidable_of_iff ('\x7b' ∉ lead ∧ '[' ∉ lead ∧ ¬['*', '*'] <:+: lead)
    ⟨fun ⟨h₁, h₂, h₃⟩ => ⟨h₁, h₂, h₃⟩, fun ⟨h₁, h₂, h₃⟩ => ⟨h₁, h₂, h₃⟩⟩

theorem SelfReading.of_prefix (h : SelfReading (lead ++ s)) : SelfReading lead where
  brace hm := h.brace (List.mem_append_left s hm)
  bracket hm := h.bracket (List.mem_append_left s hm)
  stars hm := h.stars (hm.trans (List.prefix_append lead s).isInfix)

theorem SelfReading.tail {c : Char} (h : SelfReading (c :: lead)) : SelfReading lead where
  brace hm := h.brace (List.mem_cons_of_mem c hm)
  bracket hm := h.bracket (List.mem_cons_of_mem c hm)
  stars hm := h.stars (hm.trans (List.suffix_cons c lead).isInfix)

theorem exists_reads_below (h : SelfReading lead) (hs : Reads true s ts) (hrest : Denotes ts rest) (b : Bool) :
    ∃ us, Reads b (lead ++ '/' :: s) us ∧ Denotes us (lead ++ '/' :: rest) := by
  induction lead generalizing b with
  | nil => exact ⟨.literal '/' :: ts, .lit (by decide) (by decide) (by decide) hs, .char rfl hrest⟩
  | cons c lead ih =>
    by_cases hstar : c = '*'
    · subst hstar
      obtain ⟨us, hus, hdenotes⟩ := ih h.tail false
      refine ⟨.anyRun :: us, .run ?_ hus, .run (u := ['*']) (by decide) hdenotes⟩
      intro hhead
      cases lead with
      | nil => cases hhead
      | cons d lead =>
        obtain rfl : d = '*' := Option.some.inj hhead
        exact h.stars (List.prefix_append ['*', '*'] lead).isInfix
    · by_cases hany : c = '?'
      · subst hany
        obtain ⟨us, hus, hdenotes⟩ := ih h.tail false
        exact ⟨.anyChar :: us, .any hus, .char rfl hdenotes⟩
      · obtain ⟨us, hus, hdenotes⟩ := ih h.tail (c == '/')
        have hbracket : c ≠ '[' := fun e => h.bracket (e ▸ List.mem_cons_self)
        exact ⟨.literal c :: us, .lit hstar hany hbracket hus, .char (beq_self_eq_true c) hdenotes⟩

/-- **Below a folder whose path reads as itself**, a glob stands for what the pattern stands for. -/
theorem standsFor_below (h : SelfReading lead) (hs : StandsFor s rest) :
    StandsFor (lead ++ '/' :: s) (lead ++ '/' :: rest) := by
  obtain ⟨alternative, ha, ts, hreads, hrest⟩ := hs
  refine ⟨lead ++ '/' :: alternative, ?_, exists_reads_below h hreads hrest true⟩
  have hlead : '\x7b' ∉ lead ++ ['/'] := fun hm =>
    (List.mem_append.mp hm).elim h.brace (by decide)
  rw [List.append_cons lead '/' s, expandBraces_append hlead]
  exact List.mem_map.mpr ⟨alternative, ha, (List.append_cons lead '/' alternative).symm⟩

end SiteAssist.Glob
