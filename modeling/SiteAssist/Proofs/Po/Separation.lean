import SiteAssist.Proofs.Po.Run

/-!
# Catalogs one after the other

A blank line separates: whatever waits before it is done or dropped, as at the end of a text, and nothing of
it reaches what comes after.

* `exists_lines_joined`: two texts with two line feeds between them have **the lines of both, and empty lines
  between them**, but for blanks around the lines.
* `run_parted`: **empty lines part a run in two**.
* `parse_separated`: two catalogs with a blank line between them are read as **one catalog after the other**,
  and their errors are those of the one or the other, the number of the line shifted.
-/

namespace SiteAssist.Po

open Text (trim)

/-- Two texts with two line feeds between them have **the lines of both, and empty lines between them**.
The line feeds of the first tell how many lines that are. -/
theorem exists_lines_joined (a b : List Char) :
    ∃ j, (Text.lines (a ++ '\n' :: '\n' :: b)).map trim =
        (Text.lines a ++ (List.replicate (j + 1) [] ++ Text.lines b)).map trim ∧
      (Text.lines a).length + (j + 1) = 2 + a.count '\n' := by
  obtain ⟨j, hj⟩ := Text.exists_map_trim_splitOn a
  refine ⟨j, ?_, ?_⟩
  · have hfeed : Text.lines ('\n' :: b) = [] :: Text.lines b := Text.lines_append_cons [] b
    rw [Text.lines_append_cons, hfeed, List.map_append, Text.map_trim_dropCarriageReturn, hj,
      List.replicate_succ']
    simp only [List.map_append, List.map_cons, List.map_replicate, List.append_assoc, List.cons_append,
      List.nil_append]
    rfl
  · have hlength := congrArg List.length hj
    rw [List.length_map, Text.length_splitOn, List.length_append, List.length_map,
      List.length_replicate] at hlength
    omega

/-- **Empty lines part a run in two**: what comes after them is read as if from the start. -/
theorem run_parted (ls ms : List (List Char)) (j : Nat) :
    State.run {} 1 (ls ++ (List.replicate (j + 1) [] ++ ms)) =
      (State.run {} 1 ls).bind fun s =>
        ((State.run {} 1 ms).mapError fun e => ⟨e.line + (ls.length + (j + 1)), e.problem⟩).map
          (·.past s.flush.entries) := by
  rw [run_append]
  refine congrArg (State.run {} 1 ls).bind (funext fun s => ?_)
  have hstart : ({ entries := s.flush.entries } : State) = State.past {} s.flush.entries := by
    simp [State.past]
  rw [run_append, run_replicate_nil, List.length_replicate, Nat.add_assoc]
  calc State.run { entries := s.flush.entries } (1 + (ls.length + (j + 1))) ms
      = (State.run {} (1 + (ls.length + (j + 1))) ms).map (·.past s.flush.entries) := by
        rw [hstart, run_past]
    _ = _ := by rw [run_add]

theorem dropByteOrderMark_append (a t : List Char) :
    Text.dropByteOrderMark (a ++ '\n' :: t) = Text.dropByteOrderMark a ++ '\n' :: t := by
  cases a with
  | nil => rfl
  | cons c a =>
    by_cases hc : c = '\uFEFF'
    · rw [hc]
      rfl
    · have hne : ∀ cs u, c :: u = '\uFEFF' :: cs → False := fun _ _ h => hc (List.cons.inj h).1
      rw [List.cons_append, Text.dropByteOrderMark, Text.dropByteOrderMark]
      · rfl
      · exact fun cs => hne cs a
      · exact fun cs => hne cs _

theorem count_dropByteOrderMark (a : List Char) :
    (Text.dropByteOrderMark a).count '\n' = a.count '\n' := by
  rw [Text.dropByteOrderMark.eq_def]
  split
  · rw [List.count_cons_of_ne (by decide)]
  · rfl

/-- **Two catalogs with a blank line between them** are read as one after the other, whatever waits at the
end of the first.  An error of the first is that of the whole, and an error of the second is, as many lines
later as the first has with the blank line. -/
theorem parse_separated (a b : String) (hb : b.toList.head? ≠ some '\uFEFF') :
    parse (a ++ "\n\n" ++ b) =
      match parse a with
      | .error e => .error e
      | .ok es =>
        match parse b with
        | .error e => .error ⟨e.line + 2 + a.toList.count '\n', e.problem⟩
        | .ok fs => .ok (es ++ fs) := by
  have htext : (a ++ "\n\n" ++ b).toList = a.toList ++ '\n' :: '\n' :: b.toList := by simp
  have hsecond : linesOf b = Text.lines b.toList :=
    congrArg Text.lines (dropByteOrderMark_lead (Or.inl rfl) hb)
  obtain ⟨j, hlines, hlength⟩ := exists_lines_joined (Text.dropByteOrderMark a.toList) b.toList
  rw [count_dropByteOrderMark] at hlength
  have hrun := run_parted (linesOf a) (linesOf b) j
  rw [hsecond, linesOf, ← run_congr hlines, hlength, ← dropByteOrderMark_append, ← htext, ← linesOf,
    ← linesOf, ← hsecond] at hrun
  rw [parse_eq, parse_eq a, parse_eq b, hrun]
  cases State.run {} 1 (linesOf a) with
  | error e => rfl
  | ok s =>
    cases State.run {} 1 (linesOf b) with
    | error e => simp [Except.bind, Except.map, Except.mapError, Nat.add_assoc]
    | ok s' =>
      simp only [Except.bind, Except.map, Except.mapError, State.flush_past]
      rfl

/-- The first ends with a context that waits for a msgid, and in a carriage return; the second has none
of it. -/
theorem parse_separated_waiting :
    "msgid \"b\"\n# c".toList.head? ≠ some '\uFEFF' ∧
      parse ("\uFEFFmsgid \"a\"\nmsgstr[0] \"A\"\n#\nmsgctxt \"c\"\r" ++ "\n\n" ++ "msgid \"b\"\n# c") =
        .ok [⟨none, "a", none, ["A"]⟩, ⟨none, "b", none, []⟩] := by
  have hhead : "msgid \"b\"\n# c".toList.head? ≠ some '\uFEFF' := by decide
  have hfirst : parse "\uFEFFmsgid \"a\"\nmsgstr[0] \"A\"\n#\nmsgctxt \"c\"\r" =
      .ok [⟨none, "a", none, ["A"]⟩] := by decide +kernel
  have hsecond : parse "msgid \"b\"\n# c" = .ok [⟨none, "b", none, []⟩] := by decide +kernel
  refine ⟨hhead, ?_⟩
  rw [parse_separated _ _ hhead, hfirst, hsecond]
  rfl

end SiteAssist.Po
