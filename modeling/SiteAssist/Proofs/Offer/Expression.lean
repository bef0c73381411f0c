import SiteAssist.Offer.Templates
import SiteAssist.Proofs.Outcome
import SiteAssist.Proofs.Text.Search

/-!
# Open expressions on a line

Reading a line of a template from the left, one is outside of expressions or in one: an opening mark met
outside leads into one, a closing mark met inside leads out, and all else is passed over (`insideAfter`).
A request is told apart by the last marks of either kind instead (`LinePrefix.inExpression`).

Both come down to the kind of the last mark (`lastMark?`).  Marks of one kind may overlap in a run of braces,
and the reader from the left may pass the last of them as a part of the one before; but then it is inside,
or outside, already.

* `insideAfter_eq`: the reader ends **as the last mark says**, and where there is none as it began.
* `inExpression_eq`: the comparison of the last marks of either kind **finds the last of all**.
* `offered_by_scan`: functions are offered **as calls exactly where the reader ends inside**, and else as
  expressions of their own.
-/

namespace SiteAssist.Offer.Templates

open LinePrefix (expressionMarks inExpression)
open Text (endOfLast?)

/-- Whether a reader from the left is inside an expression in the end. -/
def insideAfter : Bool → List Char → Bool
  | inside, [] => inside
  | false, '\x7b' :: '\x7b' :: cs => insideAfter true cs
  | true, '\x7d' :: '\x7d' :: cs => insideAfter false cs
  | inside, _ :: cs => insideAfter inside cs

/-! ## Marks -/

/-- The brace of a mark that opens or closes an expression. -/
def brace (opens : Bool) : Char := if opens then '\x7b' else '\x7d'

/-- A mark, two braces. -/
def mark (opens : Bool) : List Char := [brace opens, brace opens]

theorem expressionMarks_eq : expressionMarks = (mark true, mark false) := rfl

variable {c : Char} {cs s : List Char} {opens : Bool}

theorem mark_prefix_cons_iff : mark opens <+: c :: cs ↔ c = brace opens ∧ cs.head? = some (brace opens) := by
  rw [mark, List.cons_prefix_cons, eq_comm]
  refine and_congr_right fun _ => ?_
  cases cs with
  | nil => simp
  | cons d cs => simp [eq_comm]

theorem brace_ne (opens : Bool) : brace opens ≠ brace !opens := by
  cases opens <;> decide

/-- The kind of the last mark: whether it opens. -/
def lastMark? : List Char → Option Bool
  | [] => none
  | c :: cs =>
    (lastMark? cs).or
      (if mark true <+: c :: cs then some true else if mark false <+: c :: cs then some false else none)

theorem lastMark?_cons (opens : Bool) (c : Char) (cs : List Char) :
    lastMark? (c :: cs) = (lastMark? cs).or
      (if mark opens <+: c :: cs then some opens
        else if mark (!opens) <+: c :: cs then some (!opens) else none) := by
  rw [lastMark?]
  cases opens with
  | true => rfl
  | false =>
    have hnot : ¬(mark true <+: c :: cs ∧ mark false <+: c :: cs) := by
      rw [mark_prefix_cons_iff, mark_prefix_cons_iff]
      rintro ⟨⟨h, _⟩, h', _⟩
      exact brace_ne true (h.symm.trans h')
    by_cases h : mark false <+: c :: cs
    · have h' : ¬mark true <+: c :: cs := fun h' => hnot ⟨h', h⟩
      rw [if_neg h', if_pos h, if_pos h]
    · rw [if_neg h, if_neg h]
      rfl

/-- A mark is the last one unless another comes after it, if only by one character. -/
theorem lastMark?_mark (opens : Bool) (cs : List Char) :
    lastMark? (brace opens :: brace opens :: cs) = some ((lastMark? cs).getD opens) := by
  have hmark : mark opens <+: brace opens :: brace opens :: cs := List.prefix_append (mark opens) cs
  have hother : ¬mark (!opens) <+: brace opens :: cs := by
    rw [mark_prefix_cons_iff]
    exact fun h => brace_ne opens h.1
  rw [lastMark?_cons opens, lastMark?_cons opens, if_pos hmark, if_neg hother]
  cases lastMark? cs with
  | some m => rfl
  | none => split <;> rfl

/-! ## The reader from the left -/

/-- **The reader ends as the last mark says**, and where there is none as it began. -/
theorem insideAfter_eq (inside : Bool) (s : List Char) :
    insideAfter inside s = (lastMark? s).getD inside := by
  induction inside, s using insideAfter.induct with
  | case1 inside => rfl
  | case2 cs ih =>
    have hmark : lastMark? ('\x7b' :: '\x7b' :: cs) = _ := lastMark?_mark true cs
    rw [insideAfter, ih, hmark, Option.getD_some]
  | case3 cs ih =>
    have hmark : lastMark? ('\x7d' :: '\x7d' :: cs) = _ := lastMark?_mark false cs
    rw [insideAfter, ih, hmark, Option.getD_some]
  | case4 inside c cs hopen hclose ih =>
    -- the mark that the reader waits for does not stand here, and the other changes nothing
    have hmark : ¬mark (!inside) <+: c :: cs := by
      rw [mark_prefix_cons_iff]
      rintro ⟨rfl, hcs⟩
      obtain ⟨t, rfl⟩ := List.head?_eq_some_iff.mp hcs
      cases inside with
      | false => exact hopen t rfl rfl rfl
      | true => exact hclose t rfl rfl rfl
    have hother : (if mark (!!inside) <+: c :: cs then some (!!inside) else none).getD inside = inside := by
      split <;> simp
    rw [insideAfter, ih, lastMark?_cons (!inside), if_neg hmark]
    · cases lastMark? cs with
      | some m => rfl
      | none => exact hother.symm
    · exact hopen
    · exact hclose

/-! ## The last marks of either kind -/

theorem length_le_endOfLast? {needle : List Char} : ∀ {s : List Char} {n : Nat},
    endOfLast? needle s = some n → needle.length ≤ n := by
  intro s
  induction s with
  | nil =>
    intro n h
    rw [endOfLast?] at h
    split at h
    · rename_i hn
      rw [hn]
      exact Nat.zero_le n
    · cases h
  | cons c s ih =>
    intro n h
    rw [endOfLast?] at h
    split at h
    · rename_i m hm
      cases h
      exact Nat.le_succ_of_le (ih hm)
    · split at h
      · cases h
        exact Nat.le_refl _
      · cases h

theorem endOfLast?_mark_cons (opens : Bool) (c : Char) (cs : List Char) :
    endOfLast? (mark opens) (c :: cs) =
      ((endOfLast? (mark opens) cs).map (· + 1)).or (if mark opens <+: c :: cs then some 2 else none) := by
  rw [endOfLast?]
  cases endOfLast? (mark opens) cs with
  | some n => rfl
  | none => simp only [Text.isSome_stripPrefix?_iff]; rfl

/-- The last mark of all is the last of its kind, and later than the last of the other kind. -/
def Decides (opens : Bool) (s : List Char) : Prop :=
  ∃ n, endOfLast? (mark opens) s = some n ∧ ∀ m ∈ endOfLast? (mark !opens) s, m < n

theorem endOfLast?_of_lastMark?_eq_none (h : lastMark? s = none) (opens : Bool) :
    endOfLast? (mark opens) s = none := by
  induction s with
  | nil => rfl
  | cons c cs ih =>
    rw [lastMark?_cons opens, Option.or_eq_none_iff] at h
    have hnot : ¬mark opens <+: c :: cs := fun hmark => by simp [hmark] at h
    rw [endOfLast?_mark_cons, ih h.1, if_neg hnot]
    rfl

theorem decides_of_lastMark? (h : lastMark? s = some opens) : Decides opens s := by
  induction s with
  | nil => cases h
  | cons c cs ih =>
    rw [lastMark?_cons opens, Option.or_eq_some_iff] at h
    rcases h with h | ⟨hnone, h⟩
    · -- a mark here is earlier than that which decides the rest
      obtain ⟨n, hn, hlast⟩ := ih h
      refine ⟨n + 1, by rw [endOfLast?_mark_cons, hn]; rfl, fun m hm => ?_⟩
      have hlength : 2 ≤ n := length_le_endOfLast? hn
      rw [endOfLast?_mark_cons, Option.mem_def, Option.or_eq_some_iff] at hm
      rcases hm with hm | ⟨_, hm⟩
      · obtain ⟨k, hk, rfl⟩ := Option.map_eq_some_iff.mp hm
        exact Nat.succ_lt_succ (hlast k hk)
      · split at hm
        · cases hm
          omega
        · cases hm
    · split at h
      · rename_i hmark
        have hother : ¬mark (!opens) <+: c :: cs := by
          rw [mark_prefix_cons_iff] at hmark ⊢
          exact fun h' => brace_ne opens (hmark.1.symm.trans h'.1)
        have hrest := endOfLast?_of_lastMark?_eq_none hnone
        refine ⟨2, by rw [endOfLast?_mark_cons, hrest, if_pos hmark]; rfl, fun m hm => ?_⟩
        rw [endOfLast?_mark_cons, hrest, if_neg hother] at hm
        cases hm
      · split at h
        · rw [Option.some.injEq] at h
          exact absurd h (by cases opens <;> decide)
        · cases h

/-- **The comparison of the last marks** of either kind finds the last of all. -/
theorem inExpression_eq (s : List Char) : inExpression s = (lastMark? s).getD false := by
  rw [inExpression, expressionMarks_eq]
  dsimp only
  cases h : lastMark? s with
  | none =>
    rw [endOfLast?_of_lastMark?_eq_none h, endOfLast?_of_lastMark?_eq_none h]
    rfl
  | some opens =>
    obtain ⟨n, hn, hlast⟩ := decides_of_lastMark? h
    cases opens with
    | true =>
      rw [hn]
      cases hm : endOfLast? (mark false) s with
      | none => rfl
      | some m => simpa using hlast m hm
    | false =>
      rw [hn]
      cases hm : endOfLast? (mark true) s with
      | none => rfl
      | some m => simpa using Nat.le_of_lt (hlast m hm)

/-! ## What is offered -/

/-- What a client is shown of a symbol, and what it inserts. -/
structure Presents (root : Path) (s : TemplateSymbol) (detail text : String) (item : Completion) : Prop where
  label : item.label = s.label
  kind : item.kind = .function
  detail : item.detail = some detail
  text : item.insertText = some text
  format : item.insertFormat = .snippet
  undocumented : item.documentation = none
  inPlace : item.filterText = none ∧ item.replaceRange = none
  root : payload? item "root" = some root.text
  callback : payload? item "callback" = some s.fullCallback

theorem presents_completion (root : Path) (detail text : String) (s : TemplateSymbol) :
    Presents root s detail text (completion root detail text s) where
  label := rfl
  kind := rfl
  detail := rfl
  text := rfl
  format := rfl
  undocumented := rfl
  inPlace := ⟨rfl, rfl⟩
  root := rfl
  callback := rfl

theorem forall₂_presents (root : Path) (detail : String) (text : TemplateSymbol → String)
    (symbols : List TemplateSymbol) :
    List.Forall₂ (fun s item => Presents root s detail (text s) item) symbols
      (symbols.map fun s => completion root detail (text s) s) := by
  rw [List.forall₂_map_right_iff, List.forall₂_same]
  exact fun s _ => presents_completion root detail (text s) s

theorem offered_of_template {root : Path} {r : Request} (hlanguage : r.language = .twig)
    (hunder : r.path.under root) :
    offered root r =
      (functions.map fun s =>
        completion root "function (Drupal)" (functionText (inExpression r.linePrefix.toList) s) s) ++
      (if '|' ∈ r.linePrefix.toList then filters else []).map fun s =>
        completion root "filter (Drupal)" s.insert s := by
  have hnot : ¬(r.language ≠ .twig ∨ ¬r.path.under root) := by simp [hlanguage, hunder]
  rw [offered, if_neg hnot]
  simp only [List.contains_iff_mem]
  split <;> rfl

theorem offered_of_not_template {root : Path} {r : Request}
    (h : ¬(r.language = .twig ∧ r.path.under root)) : offered root r = [] := by
  rw [offered, if_pos]
  rwa [ne_eq, ← Decidable.not_and_iff_not_or_not]

/-- **The reader from the left decides.**  A line's expression is open exactly if the reader ends inside.
A template of the site is offered the functions, and the filters if there is a bar on the line; what a function
inserts is a call if the reader ends inside, and an expression of its own if it ends outside.  No other file is
offered anything. -/
theorem offered_by_scan (root : Path) (r : Request) :
    (∀ line, inExpression line = insideAfter false line) ∧
      (r.language = .twig ∧ r.path.under root →
        ∃ calls bars, offered root r = calls ++ bars ∧
          List.Forall₂ (fun s item => Presents root s "function (Drupal)"
            (if insideAfter false r.linePrefix.toList then s.insert
              else "\x7b\x7b " ++ s.insert ++ " \x7d\x7d") item) functions calls ∧
          List.Forall₂ (fun s item => Presents root s "filter (Drupal)" s.insert item)
            (if '|' ∈ r.linePrefix.toList then filters else []) bars) ∧
      (¬(r.language = .twig ∧ r.path.under root) → offered root r = []) := by
  have hscan : ∀ line, inExpression line = insideAfter false line := fun line =>
    (inExpression_eq line).trans (insideAfter_eq false line).symm
  refine ⟨hscan, fun h => ⟨_, _, offered_of_template h.1 h.2, ?_, ?_⟩, offered_of_not_template⟩
  · simp only [hscan, functionText]
    exact forall₂_presents root _ _ functions
  · exact forall₂_presents root _ _ _

/-- The function `path` is an expression of its own after `{{{ a }}}`, where the third brace of either run is
no part of a mark, and a call after `{{}}}{{{`. -/
theorem offered_by_scan_runs :
    let root : Path := ⟨"/srv/site"⟩
    let page (line : String) := Request.at ⟨"/srv/site/web/page.html.twig"⟩ .twig line 0
    (∃ item ∈ offered root (page "\x7b\x7b\x7b a \x7d\x7d\x7d"), item.label = "path" ∧
      item.insertText = some "\x7b\x7b path('$\x7b1:name\x7d') \x7d\x7d" ∧ item.insertFormat = .snippet) ∧
    (∃ item ∈ offered root (page "\x7b\x7b\x7d\x7d\x7d\x7b\x7b\x7b"), item.label = "path" ∧
      item.insertText = some "path('$\x7b1:name\x7d')" ∧ item.insertFormat = .snippet) ∧
    offered ⟨"/srv/other"⟩ (page "\x7b\x7b") = [] := by
  intro root page
  have hpath : ⟨"path", "path('$\x7b1:name\x7d')", "TwigExtension::getPath"⟩ ∈ functions := by decide
  have hunder (line : String) : (page line).language = .twig ∧ (page line).path.under root :=
    ⟨rfl, (by decide +kernel : Path.under ⟨"/srv/site/web/page.html.twig"⟩ ⟨"/srv/site"⟩ = true)⟩
  refine ⟨?_, ?_, (offered_by_scan ⟨"/srv/other"⟩ _).2.2 (by decide +kernel)⟩
  · obtain ⟨calls, bars, hoffered, hcalls, -⟩ := (offered_by_scan root _).2.1 (hunder _)
    obtain ⟨item, hitem, hshown⟩ := exists_of_mem_forall₂ hcalls hpath
    exact ⟨item, hoffered ▸ List.mem_append_left _ hitem, hshown.label,
      hshown.text.trans (by decide +kernel), hshown.format⟩
  · obtain ⟨calls, bars, hoffered, hcalls, -⟩ := (offered_by_scan root _).2.1 (hunder _)
    obtain ⟨item, hitem, hshown⟩ := exists_of_mem_forall₂ hcalls hpath
    exact ⟨item, hoffered ▸ List.mem_append_left _ hitem, hshown.label,
      hshown.text.trans (by decide +kernel), hshown.format⟩

/-- A third brace of a run is no part of a mark. -/
example : insideAfter false "\x7b\x7b\x7b".toList = true ∧
    insideAfter false "\x7b\x7b\x7d\x7d\x7d".toList = false ∧
    insideAfter false "\x7b\x7b \x7b\x7b \x7d\x7d".toList = false ∧
    insideAfter false "\x7d\x7d\x7d\x7b\x7b".toList = true := by decide

end SiteAssist.Offer.Templates
