import SiteAssist.Proofs.Offer.Callback
import SiteAssist.Proofs.Server.Run

/-!
# What a site remembers of class files

A site reads a class file when an item asks for it, and keeps what it has read.  What it keeps is told
here by the lookups alone: of a file that was looked up, it is **the text at the first lookup that could
read it** (`firstText?`), whatever became of the file since.

* `Recalls.step` and `Running.recalls`: what a run of lookups does, for every live site.
-/

namespace SiteAssist.Server

open Offer.Templates (Outlines methodsAt methodsIn methods?_methodsAt)

/-- The text of a file at the first lookup of a site that could read it. -/
def firstText? (looks : List Lookup) (site : Nat) (p : Path) : Option String :=
  looks.findSome? fun l => if l.site = site ∧ l.file.same p then l.tree.readText? l.file else none

namespace Session

variable {s t : Session} {tree : FileTree} {looks : List Lookup}

/-- Every live site remembers the first text that it could read of each file. -/
structure Recalls (s : Session) (looks : List Lookup) : Prop where
  numbered : ∀ l ∈ looks, l.site < s.nextId
  recalled : ∀ x ∈ s.sites, ∀ p,
    Outlines.methods? x.outlines p = (firstText? looks x.id p).map methodsIn

theorem recalls_initialised (params : Initialization) :
    (({} : Session).initialised params).Recalls [] := by
  have hnone : (({} : Session).initialised params).sites = [] := rfl
  constructor
  · simp
  · rw [hnone]
    simp

theorem firstText?_concat (looks : List Lookup) (l : Lookup) (site : Nat) (p : Path) :
    firstText? (looks ++ [l]) site p =
      (firstText? looks site p).or
        (if l.site = site ∧ l.file.same p then l.tree.readText? l.file else none) := by
  rw [firstText?, List.findSome?_append, List.findSome?_singleton]
  rfl

theorem methods?_outlinesAfter {look : Option Lookup} {x : Site} {p : Path}
    (h : Outlines.methods? x.outlines p = (firstText? looks x.id p).map methodsIn) :
    Outlines.methods? (outlinesAfter look x) p =
      (firstText? (looks ++ look.toList) x.id p).map methodsIn := by
  cases look with
  | none =>
    rw [Option.toList_none, List.append_nil]
    exact h
  | some l =>
    rw [Option.toList_some, firstText?_concat, Option.map_or, ← h]
    by_cases hsite : l.site = x.id
    · simp only [outlinesAfter, hsite, if_true, true_and, methods?_methodsAt]
      split <;> rfl
    · simp only [outlinesAfter, hsite, if_false, false_and, Option.map_none, Option.or_none]

/-- A message asks one of the live sites. -/
theorem site_of_lookup? {m : Message} {l : Lookup} (h : s.lookup? tree m = some l) :
    ∃ x ∈ s.sites, l.site = x.id := by
  cases m with
  | resolve item =>
    simp only [lookup?, Option.bind_eq_bind, Option.bind_eq_some_iff] at h
    obtain ⟨pending, _, x, hx, callback, _, hl⟩ := h
    cases hl
    exact ⟨x, List.mem_of_find?_eq_some hx, rfl⟩
  | _ => simp [lookup?] at h

/-- No lookup before has been for a number that is not given yet. -/
theorem Recalls.firstText?_of_le (h : s.Recalls looks) {n : Nat} (hn : s.nextId ≤ n) (p : Path) :
    firstText? looks n p = none := by
  rw [firstText?, List.findSome?_eq_none_iff]
  intro l hl
  have := h.numbered l hl
  rw [if_neg fun hx => by omega]

/-- **A step keeps what is remembered** in line with the lookups. -/
theorem Recalls.step (h : s.Recalls looks) {look : Option Lookup} {sent : List Notice}
    (ho : s.Orderly) (hstep : Step s tree look t sent)
    (hlook : ∀ l ∈ look, ∃ x ∈ s.sites, l.site = x.id) : t.Recalls (looks ++ look.toList) := by
  cases hstep with
  | kept f keeps sites folders nextId =>
    constructor
    · intro l hl
      rw [nextId]
      rcases List.mem_append.mp hl with hl | hl
      · exact h.numbered l hl
      · obtain ⟨x, hx, hid⟩ := hlook l (Option.mem_toList.mp hl)
        rw [hid]
        exact ho.numbered x hx
    · intro y hy p
      rw [sites] at hy
      obtain ⟨x, hx, rfl⟩ := List.mem_map.mp hy
      rw [(keeps x hx).outlines, (keeps x hx).id]
      exact methods?_outlinesAfter (h.recalled x hx p)
  | turned removed added idle arrivals sites folders nextId =>
    subst idle
    rw [Option.toList_none, List.append_nil]
    constructor
    · intro l hl
      have := h.numbered l hl
      omega
    · intro x hx p
      rcases List.mem_append.mp (sites ▸ hx) with hx | hx
      · exact h.recalled x (List.mem_of_mem_filter hx) p
      · rw [arrivals.unread x hx, h.firstText?_of_le (arrivals.id_mem hx).1]
        rfl

theorem Running.recalls {sent : List Notice} (h : Running s sent looks) : s.Recalls looks := by
  induction h with
  | start params => exact recalls_initialised params
  | step prior tree work ih =>
    exact ih.step prior.orderly (step_handle prior.orderly tree work) fun l hl => site_of_lookup? hl

end Session

end SiteAssist.Server
