import Mathlib.Data.List.TakeWhile
import SiteAssist.Snippet

/-!
# Reading snippets

A snippet is read as what it puts in: characters and tab stops (`read?`).  A backslash before a character
that means something takes the meaning away and does not count itself.  A dollar sign with digits is a tab
stop; one without them is no part of the snippets here, and nothing is read.

* `read?_escape`: an escaped text is read as **the text itself**, whatever it contains.
* `read?_stop`: a tab stop is read with **its whole number**, if no digit comes after it.

What is inserted is the snippet `filled` with a text for each tab stop.
-/

namespace SiteAssist.Snippet

/-- What a snippet puts in: a character, or a place to go to. -/
inductive Piece where
  | char (c : Char)
  | stop (number : Nat)
  deriving Repr, DecidableEq

/-- The number of a tab stop. -/
def Piece.stop? : Piece → Option Nat
  | .char _ => none
  | .stop n => some n

/-- The pieces of a snippet, if every dollar sign in it is escaped or that of a tab stop. -/
def read? : List Char → Option (List Piece)
  | [] => some []
  | c :: cs =>
    if c = '$' then
      let digits := cs.takeWhile Char.isDigit
      if digits = [] then none
      else (read? (cs.dropWhile Char.isDigit)).map (.stop (Nat.ofDigitChars 10 digits 0) :: ·)
    else if c = '\\' ∧ cs.head?.any isSpecial = true then
      -- the escaped character is read for itself, be it a backslash or a dollar sign
      (read? (cs.drop 1)).map ((cs.take 1).map .char ++ ·)
    else (read? cs).map (.char c :: ·)
  termination_by s => s.length
  decreasing_by
  · have := (List.dropWhile_suffix (l := cs) Char.isDigit).length_le
    simp only [List.length_cons]
    omega
  · simp only [List.length_drop, List.length_cons]
    omega
  · simp

/-- The text that is inserted, each tab stop filled. -/
def filled (fill : Nat → List Char) (pieces : List Piece) : List Char :=
  pieces.flatMap fun
    | .char c => [c]
    | .stop n => fill n

/-- A text as pieces. -/
def ofText (s : List Char) : List Piece := s.map .char

/-- A text in which nothing is escaped and no tab stop begins. -/
def Plain (s : List Char) : Prop := ∀ c ∈ s, c ≠ '$' ∧ c ≠ '\\'

instance (s : List Char) : Decidable (Plain s) := List.decidableBAll _ s

/-! ## Reading -/

theorem read?_nil : read? [] = some [] := by rw [read?]

theorem read?_plain {c : Char} (hdollar : c ≠ '$') (hbackslash : c ≠ '\\') (s : List Char) :
    read? (c :: s) = (read? s).map (.char c :: ·) := by
  rw [read?, if_neg hdollar, if_neg (by simp [hbackslash])]

theorem read?_escaped {c : Char} (h : isSpecial c = true) (s : List Char) :
    read? ('\\' :: c :: s) = (read? s).map (.char c :: ·) := by
  rw [read?, if_neg (by decide), if_pos ⟨rfl, h⟩]
  rfl

/-- What is read after what was read. -/
theorem map_map_append (ps qs : List Piece) (o : Option (List Piece)) :
    (o.map (qs ++ ·)).map (ps ++ ·) = o.map ((ps ++ qs) ++ ·) := by
  rw [Option.map_map]
  simp only [Function.comp_def, List.append_assoc]

theorem ne_of_isSpecial_eq_false {c : Char} (h : isSpecial c = false) : c ≠ '$' ∧ c ≠ '\\' := by
  constructor <;> rintro rfl <;> simp [isSpecial] at h

/-- A plain text stands for itself. -/
theorem read?_text : ∀ {s : List Char}, Plain s → ∀ t : List Char,
    read? (s ++ t) = (read? t).map (ofText s ++ ·) := by
  intro s
  induction s with
  | nil => intro _ t; simp [ofText]
  | cons c s ih =>
    intro h t
    obtain ⟨hd, hb⟩ := h c List.mem_cons_self
    rw [List.cons_append, read?_plain hd hb, ih fun x hx => h x (List.mem_cons_of_mem c hx)]
    exact map_map_append [.char c] _ _

/-- **Escaping is undone by reading**, whatever the text. -/
theorem read?_escape (s t : List Char) : read? (escape s ++ t) = (read? t).map (ofText s ++ ·) := by
  induction s with
  | nil => simp [escape, ofText]
  | cons c s ih =>
    rw [escape]
    cases h : isSpecial c with
    | true =>
      rw [if_pos rfl, List.cons_append, List.cons_append, read?_escaped h, ih]
      exact map_map_append [.char c] _ _
    | false =>
      obtain ⟨hd, hb⟩ := ne_of_isSpecial_eq_false h
      rw [if_neg Bool.false_ne_true, List.cons_append, read?_plain hd hb, ih]
      exact map_map_append [.char c] _ _

/-- **A tab stop ends where its digits end.** -/
theorem read?_stop (n : Nat) {t : List Char} (ht : ∀ c ∈ t.head?, c.isDigit = false) :
    read? ('$' :: (toString n).toList ++ t) = (read? t).map (.stop n :: ·) := by
  have hdigits : (toString n).toList = Nat.toDigits 10 n := by
    rw [Nat.toString_eq_repr, Nat.repr_eq_ofList_toDigits, String.toList_ofList]
  have hall : ∀ c ∈ Nat.toDigits 10 n, c.isDigit = true := fun c hc =>
    Nat.isDigit_of_mem_toDigits (by decide) (by decide) hc
  have hend : t.takeWhile Char.isDigit = [] ∧ t.dropWhile Char.isDigit = t := by
    cases t with
    | nil => exact ⟨rfl, rfl⟩
    | cons c t =>
      have hc : ¬c.isDigit = true := by simp [ht c rfl]
      exact ⟨List.takeWhile_cons_of_neg hc, List.dropWhile_cons_of_neg hc⟩
  rw [hdigits, List.cons_append, read?, if_pos rfl, List.takeWhile_append_of_pos hall,
    List.dropWhile_append_of_pos hall, hend.1, hend.2, List.append_nil,
    if_neg Nat.toDigits_ne_nil, Nat.ofDigitChars_ten_toDigits]

/-! ## Filling -/

theorem filled_append (fill : Nat → List Char) (ps qs : List Piece) :
    filled fill (ps ++ qs) = filled fill ps ++ filled fill qs := List.flatMap_append

theorem filled_ofText (fill : Nat → List Char) (s : List Char) : filled fill (ofText s) = s := by
  induction s with
  | nil => rfl
  | cons c s ih => exact congrArg (c :: ·) ih

theorem filterMap_stop?_ofText (s : List Char) : (ofText s).filterMap Piece.stop? = [] := by
  rw [List.filterMap_eq_nil_iff]
  intro p hp
  obtain ⟨c, _, rfl⟩ := List.mem_map.mp hp
  rfl

end SiteAssist.Snippet
