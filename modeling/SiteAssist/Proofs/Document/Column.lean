import SiteAssist.Proofs.Document.Place

/-!
# Columns on the line before the cursor

What stands before the cursor is the start of a line of the document.  The cursor may lie past the end of
the line or inside a surrogate pair; then less stands before it than its column says.  The length of what
does stand there is a column again, and it leads **to the same place**.

* `linePrefix?_units`, `exists_offset`: the length of any start of the line before the cursor is the column
  of the end of that start.
* `exists_edit`: an edit from there to the cursor replaces what stands between.
-/

namespace SiteAssist

namespace Text

theorem units_append (s t : List Char) : units (s ++ t) = units s + units t := by
  induction s with
  | nil => rw [List.nil_append, units, Nat.zero_add]
  | cons c s ih => rw [List.cons_append, units, units, ih, Nat.add_assoc]

end Text

namespace Document

open Text (units)

variable {text s u : List Char} {p : Position}

theorem prefix_content (line : List Char) : content line <+: line := by
  have := List.reverse_prefix.mpr (List.dropWhile_suffix (l := line.reverse) isReturn)
  rwa [List.reverse_reverse] at this

theorem prefix_before (line : List Char) (column : Nat) : before line column <+: content line :=
  List.take_prefix _ _

/-- The length of a start of a line leads to its end. -/
theorem before_units {line : List Char} (h : u <+: content line) : before line (units u) = u := by
  obtain ⟨x, hx⟩ := h
  rw [before, ← hx, charsInUnits_append, List.take_left]

theorem flatten_splitLines (text : List Char) : (splitLines text).flatten = text := by
  induction text using splitLines.induct with
  | case1 => rfl
  | case2 cs ih => rw [splitLines, List.flatten_cons, ih]; rfl
  | case3 c cs hne hb ih =>
    rw [splitLines, if_pos hb, List.flatten_cons, ih]
    · rfl
    · exact hne
  | case4 c cs hne hb he => exact absurd he (splitLines_ne_nil cs)
  | case5 c cs hne hb line lines he ih =>
    rw [splitLines_cons (by simpa using hb) he, List.flatten_cons, List.cons_append,
      ← List.flatten_cons, ← he, ih]

/-- What stands before the cursor as a part of the document: the lines above, and all after it. -/
theorem exists_around (h : linePrefix? text p = some s) :
    ∃ above below line, text = above ++ s ++ below ∧ (splitLines text)[p.line]? = some line ∧
      above = ((splitLines text).take p.line).flatten ∧ s = before line p.column := by
  rw [linePrefix?, Option.map_eq_some_iff] at h
  obtain ⟨line, hline, rfl⟩ := h
  obtain ⟨x, hx⟩ := (prefix_before line p.column).trans (prefix_content line)
  obtain ⟨hlt, hget⟩ := List.getElem?_eq_some_iff.mp hline
  refine ⟨_, x ++ ((splitLines text).drop (p.line + 1)).flatten, line, ?_, hline, rfl, rfl⟩
  calc text = ((splitLines text).take p.line ++ (splitLines text).drop p.line).flatten := by
        rw [List.take_append_drop, flatten_splitLines]
    _ = ((splitLines text).take p.line).flatten ++
          (line ++ ((splitLines text).drop (p.line + 1)).flatten) := by
        rw [List.flatten_append, List.drop_eq_getElem_cons hlt, List.flatten_cons, hget]
    _ = _ := by
        rw [← List.append_assoc, List.append_assoc _ (before line p.column), ← List.append_assoc _ x, hx,
          List.append_assoc]

/-- **A start of what stands before the cursor** is what stands before its own end. -/
theorem linePrefix?_units (h : linePrefix? text p = some s) (hu : u <+: s) :
    linePrefix? text ⟨p.line, units u⟩ = some u := by
  obtain ⟨_, _, line, _, hline, _, rfl⟩ := exists_around h
  rw [linePrefix?]
  simp only [hline, Option.map_some, before_units (hu.trans (prefix_before line p.column))]

/-- The place of the cursor and those of all **starts of what stands before it**. -/
theorem exists_offset (h : linePrefix? text p = some s) :
    ∃ above below, text = above ++ s ++ below ∧ offset text p = (above ++ s).length ∧
      ∀ u, u <+: s → offset text ⟨p.line, units u⟩ = (above ++ u).length := by
  obtain ⟨above, below, line, htext, hline, rfl, rfl⟩ := exists_around h
  refine ⟨_, below, htext, ?_, fun u hu => ?_⟩
  · simp only [offset, hline, List.length_append]
  · simp only [offset, hline, before_units (hu.trans (prefix_before line p.column)), List.length_append]

/-- **An edit up to the cursor** replaces the rest of what stands before it. -/
theorem exists_edit (h : linePrefix? text p = some s) (hu : u <+: s) :
    ∃ above below, text = above ++ s ++ below ∧ offset text p = (above ++ s).length ∧
      offset text ⟨p.line, units s⟩ = offset text p ∧
        ∀ new, edit text ⟨p.line, units u⟩ ⟨p.line, units s⟩ new = above ++ u ++ new ++ below := by
  obtain ⟨above, below, htext, hplace, hstart⟩ := exists_offset h
  obtain ⟨v, rfl⟩ := hu
  have hstop := hstart (u ++ v) (List.prefix_refl _)
  refine ⟨above, below, htext, hplace, hstop.trans hplace.symm, fun new => ?_⟩
  have hle : (above ++ u).length ≤ (above ++ (u ++ v)).length := by
    simp only [List.length_append]
    omega
  rw [edit]
  simp only [hstart u (List.prefix_append u v), hstop, Nat.max_eq_right hle]
  have hleft : text = above ++ u ++ (v ++ below) := by simp [htext]
  rw [htext, List.drop_left, ← htext, hleft, List.take_left]

end Document

end SiteAssist
