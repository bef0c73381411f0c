import SiteAssist.Cache
import SiteAssist.Proofs.FilePattern.Agreement

/-!
# What an operation does to a cache

A cache keeps its entries, their items in one list, whether it has been populated, and the number of
extractions that run.  This file says what each operation makes of these (`Effect`), and what holds
after any sequence of operations, whatever happens to the tree in between.

* `effect_perform`: **every operation has the effect that is written down for it**.  An extraction
  is only ever told that the cache is populating, and one that breaks off leaves the cache as it was.
* `run_spec`: no two keys are the same path, the items are those of the entries in order, and the
  cache is ready once a `populate` has come to its end.
-/

namespace SiteAssist.FileCache

variable {α : Type}

/-! ## Operations -/

/-- One operation on a cache. -/
inductive Operation where
  | populate
  | refresh (p : Path)
  | remove (p : Path)
  | apply (p : Path) (event : FileEvent)

/-- An operation, with the tree and the root that it meets. -/
structure Call where
  tree : FileTree
  root : Path
  op : Operation

/-- The cache after one call, and how the call ended. -/
def perform (c : FileCache α) (call : Call) : FileCache α × Outcome :=
  match call.op with
  | .populate => c.populate call.tree call.root
  | .refresh p => c.refresh call.tree p
  | .remove p => (c.remove p, .done)
  | .apply p event => c.apply call.tree p event

/-- The cache after a sequence of calls. -/
def run (c : FileCache α) (calls : List Call) : FileCache α :=
  calls.foldl (fun c call => (c.perform call).1) c

/-- The cache of a pattern and an extractor before any call. -/
def new (pattern : FilePattern) (extract : CacheStatus → Path → String → Extraction α) :
    FileCache α := { pattern, extract }

/-! ## Extractions -/

/-- The items that are extracted from a readable file, by an extractor that is told that the
cache is populating. -/
def Extracted (extract : CacheStatus → Path → String → Extraction α) (tree : FileTree) (p : Path)
    (items : List α) : Prop :=
  ∃ text, tree.readText? p = some text ∧
    (extract .populating p text = .items items ∨
      extract .populating p text = .malformed ∧ items = [])

/-- The extractor breaks off at a readable file. -/
def Breaks (extract : CacheStatus → Path → String → Extraction α) (tree : FileTree) (p : Path) :
    Prop :=
  ∃ text, tree.readText? p = some text ∧ extract .populating p text = .broken

/-- A file that can be read as text. -/
def readable (tree : FileTree) (p : Path) : Bool := (tree.readText? p).isSome

theorem status_began (c : FileCache α) : c.began.status = .populating :=
  if_pos (Nat.succ_pos c.inFlight)

theorem extracted_of_extractItems? {c : FileCache α} {tree : FileTree} {p : Path} {text : String}
    {items : List α} (ht : tree.readText? p = some text)
    (h : c.began.extractItems? p text = some items) : Extracted c.extract tree p items := by
  rw [extractItems?, status_began] at h
  refine ⟨text, ht, ?_⟩
  cases he : c.extract .populating p text with
  | items xs =>
    simp only [began, he, Option.some.injEq] at h
    exact Or.inl (by rw [h])
  | malformed =>
    simp only [began, he, Option.some.injEq] at h
    exact Or.inr ⟨rfl, h.symm⟩
  | broken => simp [began, he] at h

theorem breaks_of_extractItems? {c : FileCache α} {tree : FileTree} {p : Path} {text : String}
    (ht : tree.readText? p = some text) (h : c.began.extractItems? p text = none) :
    Breaks c.extract tree p := by
  rw [extractItems?, status_began] at h
  refine ⟨text, ht, ?_⟩
  cases he : c.extract .populating p text with
  | items xs => simp [began, he] at h
  | malformed => simp [began, he] at h
  | broken => rfl

/-- A scan makes one entry of each readable file, or the extractor breaks off at one of them. -/
theorem scan?_spec (c : FileCache α) (tree : FileTree) (ps : List Path) :
    (∃ entries, c.began.scan? tree ps = some entries ∧
        entries.map Prod.fst = ps.filter (readable tree) ∧
        ∀ e ∈ entries, Extracted c.extract tree e.1 e.2) ∨
      c.began.scan? tree ps = none ∧ ∃ p ∈ ps, Breaks c.extract tree p := by
  induction ps with
  | nil => exact Or.inl ⟨[], rfl, rfl, by simp⟩
  | cons p ps ih =>
    rw [scan?]
    cases ht : tree.readText? p with
    | none =>
      rw [List.filter_cons_of_neg (by simp [readable, ht])]
      rcases ih with h | ⟨h, q, hq, hb⟩
      · exact Or.inl h
      · exact Or.inr ⟨h, q, List.mem_cons_of_mem p hq, hb⟩
    | some text =>
      rw [List.filter_cons_of_pos (by simp [readable, ht])]
      cases hx : c.began.extractItems? p text with
      | none =>
        exact Or.inr ⟨by simp [hx], p, List.mem_cons_self, breaks_of_extractItems? ht hx⟩
      | some items =>
        rcases ih with ⟨entries, h, hkeys, hall⟩ | ⟨h, q, hq, hb⟩
        · refine Or.inl ⟨(p, items) :: entries, by simp [hx, h], by rw [List.map_cons, hkeys], ?_⟩
          intro e he
          rcases List.mem_cons.mp he with rfl | he
          · exact extracted_of_extractItems? ht hx
          · exact hall e he
        · exact Or.inr ⟨by simp [hx, h], q, List.mem_cons_of_mem p hq, hb⟩

/-! ## Effects -/

/-- What a call makes of a cache, and how it ends. -/
inductive Effect (c : FileCache α) (tree : FileTree) (root : Path) :
    Operation → FileCache α → Outcome → Prop
  /-- one entry for each readable file that is found, in the order of finding -/
  | populated {entries : List (Path × List α)} :
      entries.map Prod.fst = (c.pattern.files tree root).filter (readable tree) →
      (∀ e ∈ entries, Extracted c.extract tree e.1 e.2) →
      Effect c tree root .populate
        { c with snapshot := .ofEntries entries, populated := true } .done
  | populateBroken {p : Path} :
      p ∈ c.pattern.files tree root → Breaks c.extract tree p →
      Effect c tree root .populate c .broken
  /-- an entry of the same path takes the new items, where it stands -/
  | replaced {p q : Path} {items old : List α} {l r : List (Path × List α)} :
      Extracted c.extract tree p items → c.snapshot.entries = l ++ (q, old) :: r →
      q.same p = true →
      Effect c tree root (.refresh p) { c with snapshot := .ofEntries (l ++ (q, items) :: r) } .done
  /-- a path without an entry comes last -/
  | added {p : Path} {items : List α} :
      Extracted c.extract tree p items → (∀ e ∈ c.snapshot.entries, e.1.same p = false) →
      Effect c tree root (.refresh p)
        { c with snapshot := .ofEntries (c.snapshot.entries ++ [(p, items)]) } .done
  | unreadable {p : Path} :
      tree.readText? p = none → Effect c tree root (.refresh p) c .done
  | refreshBroken {p : Path} :
      Breaks c.extract tree p → Effect c tree root (.refresh p) c .broken
  /-- the entry of the path is dropped -/
  | removed {p : Path} :
      Effect c tree root (.remove p)
        { c with snapshot := .ofEntries (c.snapshot.entries.filter fun e => !e.1.same p) } .done
  | createdOrChanged {p : Path} {event : FileEvent} {c' : FileCache α} {out : Outcome} :
      event ≠ .deleted → Effect c tree root (.refresh p) c' out →
      Effect c tree root (.apply p event) c' out
  | deleted {p : Path} {c' : FileCache α} {out : Outcome} :
      Effect c tree root (.remove p) c' out → Effect c tree root (.apply p .deleted) c' out

/-- A cache with no two entries of one path, whose items are those of its entries, and in which
no extraction runs. -/
structure Sound (c : FileCache α) : Prop where
  keys : (c.snapshot.entries.map Prod.fst).Pairwise fun p q => p.same q = false
  items : c.items = c.snapshot.entries.flatMap Prod.snd
  idle : c.inFlight = 0

theorem sound_new (pattern : FilePattern) (extract : CacheStatus → Path → String → Extraction α) :
    (new pattern extract).Sound where
  keys := .nil
  items := rfl
  idle := rfl

theorem Sound.ofEntries {c : FileCache α} (h : c.Sound) :
    Snapshot.ofEntries c.snapshot.entries = c.snapshot := by
  rw [Snapshot.ofEntries, ← h.items]
  rfl

theorem putEntry_cases (p : Path) (items : List α) : ∀ entries : List (Path × List α),
    (∃ l q old r, entries = l ++ (q, old) :: r ∧ q.same p = true ∧
        putEntry p items entries = l ++ (q, items) :: r) ∨
      (∀ e ∈ entries, e.1.same p = false) ∧ putEntry p items entries = entries ++ [(p, items)] := by
  intro entries
  induction entries with
  | nil => exact Or.inr ⟨by simp, rfl⟩
  | cons e entries ih =>
    obtain ⟨q, old⟩ := e
    rw [putEntry]
    by_cases hs : q.same p = true
    · rw [if_pos hs]
      exact Or.inl ⟨[], q, old, entries, rfl, hs, rfl⟩
    · rw [if_neg hs]
      rcases ih with ⟨l, q', old', r, rfl, hs', hput⟩ | ⟨hall, hput⟩
      · exact Or.inl ⟨(q, old) :: l, q', old', r, rfl, hs', by rw [hput]; rfl⟩
      · refine Or.inr ⟨?_, by rw [hput]; rfl⟩
        intro e he
        rcases List.mem_cons.mp he with rfl | he
        · simpa using hs
        · exact hall e he

theorem effect_populate (c : FileCache α) (tree : FileTree) (root : Path) :
    Effect c tree root .populate (c.populate tree root).1 (c.populate tree root).2 := by
  rw [populate]
  rcases scan?_spec c tree (c.pattern.files tree root) with
    ⟨entries, h, hkeys, hall⟩ | ⟨h, p, hp, hb⟩
  · have h' : c.began.scan? tree (c.pattern.files tree root) = some entries := h
    simp only [h']
    exact .populated hkeys hall
  · simp only [h]
    exact .populateBroken hp hb

theorem effect_refresh (c : FileCache α) (tree : FileTree) (root p : Path) :
    Effect c tree root (.refresh p) (c.refresh tree p).1 (c.refresh tree p).2 := by
  rw [refresh]
  cases ht : tree.readText? p with
  | none => exact .unreadable ht
  | some text =>
    cases hx : c.began.extractItems? p text with
    | none =>
      simp only [hx]
      exact .refreshBroken (breaks_of_extractItems? ht hx)
    | some items =>
      simp only [hx]
      have hi := extracted_of_extractItems? ht hx
      rcases putEntry_cases p items c.snapshot.entries with
        ⟨l, q, old, r, he, hs, hput⟩ | ⟨hall, hput⟩
      · rw [hput]
        exact .replaced hi he hs
      · rw [hput]
        exact .added hi hall

theorem effect_remove {c : FileCache α} (hc : c.Sound) (tree : FileTree) (root p : Path) :
    Effect c tree root (.remove p) (c.remove p) .done := by
  have hremove : c.remove p =
      { c with snapshot := .ofEntries (c.snapshot.entries.filter fun e => !e.1.same p) } := by
    rw [remove]
    split
    · -- no entry of the path, so the filter keeps them all
      rename_i hn
      rw [FileCache.entry?, Option.isNone_map, Option.isNone_iff_eq_none, List.find?_eq_none] at hn
      have hkeep : c.snapshot.entries.filter (fun e => !e.1.same p) = c.snapshot.entries :=
        List.filter_eq_self.mpr fun e he => by simpa using hn e he
      rw [hkeep, hc.ofEntries]
    · rfl
  rw [hremove]
  exact .removed

/-- **Every operation has its effect.** -/
theorem effect_perform {c : FileCache α} (hc : c.Sound) (call : Call) :
    Effect c call.tree call.root call.op (c.perform call).1 (c.perform call).2 := by
  obtain ⟨tree, root, op⟩ := call
  cases op with
  | populate => exact effect_populate c tree root
  | refresh p => exact effect_refresh c tree root p
  | remove p => exact effect_remove hc tree root p
  | apply p event =>
    cases event with
    | created => exact .createdOrChanged (by simp) (effect_refresh c tree root p)
    | changed => exact .createdOrChanged (by simp) (effect_refresh c tree root p)
    | deleted => exact .deleted (effect_remove hc tree root p)

/-! ## After any sequence of operations -/

theorem Effect.sound {c c' : FileCache α} {tree : FileTree} {root : Path} {op : Operation}
    {out : Outcome} (h : Effect c tree root op c' out) (hc : c.Sound) : c'.Sound := by
  induction h with
  | populated hkeys _ =>
    refine ⟨?_, rfl, hc.idle⟩
    rw [Snapshot.ofEntries, hkeys]
    exact (FilePattern.pairwise_files c.pattern tree root).filter _
  | @replaced p q items old l r _ he _ =>
    refine ⟨?_, rfl, hc.idle⟩
    have hk := hc.keys
    rw [he] at hk
    simpa [Snapshot.ofEntries] using hk
  | @added p items _ hnew =>
    refine ⟨?_, rfl, hc.idle⟩
    rw [Snapshot.ofEntries, List.map_append, List.pairwise_append]
    refine ⟨hc.keys, by simp, ?_⟩
    intro k hk q hq
    obtain ⟨e, he, rfl⟩ := List.mem_map.mp hk
    rw [List.map_singleton, List.mem_singleton] at hq
    rw [hq]
    exact hnew e he
  | removed =>
    refine ⟨?_, rfl, hc.idle⟩
    exact hc.keys.sublist (List.filter_sublist.map Prod.fst)
  | populateBroken _ _ | unreadable _ | refreshBroken _ => exact hc
  | createdOrChanged _ _ ih | deleted _ ih => exact ih

/-- An extractor that breaks off leaves the cache as it was. -/
theorem Effect.done_or_same {c c' : FileCache α} {tree : FileTree} {root : Path} {op : Operation}
    {out : Outcome} (h : Effect c tree root op c' out) : out = .done ∨ c' = c := by
  induction h with
  | populated _ _ | replaced _ _ _ | added _ _ | unreadable _ | removed => exact Or.inl rfl
  | populateBroken _ _ | refreshBroken _ => exact Or.inr rfl
  | createdOrChanged _ _ ih | deleted _ ih => exact ih

theorem Effect.populated_iff {c c' : FileCache α} {tree : FileTree} {root : Path} {op : Operation}
    {out : Outcome} (h : Effect c tree root op c' out) :
    c'.populated = true ↔ c.populated = true ∨ op = .populate ∧ out = .done := by
  induction h with
  | populated _ _ => simp
  | createdOrChanged _ _ ih =>
    rw [ih]
    simp
  | deleted _ ih =>
    rw [ih]
    simp
  | _ => simp

/-- Some `populate` among the calls has come to its end. -/
def Finished (c : FileCache α) (calls : List Call) : Prop :=
  ∃ before call after, calls = before ++ call :: after ∧ call.op = .populate ∧
    ((c.run before).perform call).2 = .done

theorem run_concat (c : FileCache α) (calls : List Call) (call : Call) :
    c.run (calls ++ [call]) = ((c.run calls).perform call).1 := by
  rw [run, List.foldl_append]
  rfl

theorem finished_concat {c : FileCache α} {calls : List Call} {call : Call} :
    c.Finished (calls ++ [call]) ↔
      c.Finished calls ∨ call.op = .populate ∧ ((c.run calls).perform call).2 = .done := by
  constructor
  · rintro ⟨before, call', after, he, hop, hout⟩
    rcases List.eq_nil_or_concat after with rfl | ⟨after, last, rfl⟩
    · obtain ⟨rfl, h⟩ := List.append_inj' he rfl
      obtain rfl := List.singleton_inj.mp h
      exact Or.inr ⟨hop, hout⟩
    · rw [List.concat_eq_append, ← List.cons_append, ← List.append_assoc] at he
      obtain ⟨rfl, _⟩ := List.append_inj' he rfl
      exact Or.inl ⟨before, call', after, rfl, hop, hout⟩
  · rintro (⟨before, call', after, rfl, hop, hout⟩ | ⟨hop, hout⟩)
    · exact ⟨before, call', after ++ [call], by simp, hop, hout⟩
    · exact ⟨calls, call, [], rfl, hop, hout⟩

theorem run_sound {c : FileCache α} (hc : c.Sound) (calls : List Call) : (c.run calls).Sound := by
  induction calls generalizing c with
  | nil => exact hc
  | cons call calls ih => exact ih ((effect_perform hc call).sound hc)

theorem populated_run_iff {c : FileCache α} (hc : c.Sound) (hnew : c.populated = false)
    (calls : List Call) : (c.run calls).populated = true ↔ c.Finished calls := by
  induction hl : calls.length generalizing calls with
  | zero =>
    rw [List.length_eq_zero_iff.mp hl]
    refine ⟨fun h => ?_, ?_⟩
    · rw [run, List.foldl_nil, hnew] at h
      simp at h
    · rintro ⟨before, call, after, he, _⟩
      simp at he
  | succ k ih =>
    have hne : calls ≠ [] := by rintro rfl; simp at hl
    rw [← List.dropLast_concat_getLast hne, run_concat, finished_concat,
      (effect_perform (run_sound hc _) _).populated_iff, ih _ (by simp [hl])]

/-- **What holds of a cache after any sequence of calls**, and what the next call does to it. -/
theorem run_spec (pattern : FilePattern)
    (extract : CacheStatus → Path → String → Extraction α) (calls : List Call) :
    let c := (new pattern extract).run calls
    c.Sound ∧ c.status ≠ .populating ∧ (c.status = .ready ↔ (new pattern extract).Finished calls) ∧
      ∀ call : Call, Effect c call.tree call.root call.op (c.perform call).1 (c.perform call).2 ∧
        ((c.perform call).2 = .done ∨ (c.perform call).1 = c) := by
  have hnew := sound_new pattern extract
  have hc := run_sound hnew calls
  have hstatus : ((new pattern extract).run calls).status =
      if ((new pattern extract).run calls).populated = true then .ready else .uninitialised := by
    rw [status, if_neg (by simp [hc.idle])]
  have hpop := populated_run_iff hnew rfl calls
  refine ⟨hc, ?_, ?_, fun call => ⟨effect_perform hc call, (effect_perform hc call).done_or_same⟩⟩
  · rw [hstatus]
    split <;> simp
  · rw [hstatus, ← hpop]
    split <;> simp_all

end SiteAssist.FileCache
