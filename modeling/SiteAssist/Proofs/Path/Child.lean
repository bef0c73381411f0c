import SiteAssist.Proofs.Path.Spelling

/-!
# What lies right below a path

`Spelling` follows absolute paths.  A path of any other kind leads to its children in the same way:
joining a name adds one step (`steps_join_name`), and of any path with that step after those of a root
**the name is what is left** (`relativeTo?_of_steps`), however the two are spelled.

Both go by the pieces alone (`steps_of_pieces`).
-/

namespace SiteAssist.Path

open Text (splitOn_sep_cons splitOn_cons_of_ne)

/-- The step that a path starts with, by its first piece and those after it. -/
def leadSteps (first : List Char) (rest : List (List Char)) : List Step :=
  if first = [] then (if rest = [] then [] else [.root])
  else if first = ['.'] then [.here]
  else (stepOf? first).toList

theorem isAbsolute_of_pieces {p : Path} {rest : List (List Char)}
    (h : pieces p.text.toList = [] :: rest) : p.isAbsolute = true ↔ rest ≠ [] := by
  rw [isAbsolute, beq_iff_eq]
  rw [pieces] at h
  cases ht : p.text.toList with
  | nil =>
    rw [ht, List.splitOn_nil, List.cons.injEq] at h
    simp [← h.2]
  | cons c t =>
    rw [ht] at h
    by_cases hc : c = '/'
    · rw [hc, splitOn_sep_cons, List.cons.injEq] at h
      simp [hc, ← h.2, List.splitOn_ne_nil _]
    · obtain ⟨q, qs, hq⟩ := List.exists_cons_of_ne_nil (List.splitOn_ne_nil '/' t)
      rw [splitOn_cons_of_ne hc hq] at h
      simp at h

theorem steps_of_pieces {p : Path} {first : List Char} {rest : List (List Char)}
    (h : pieces p.text.toList = first :: rest) :
    p.steps = leadSteps first rest ++ rest.filterMap stepOf? := by
  rw [steps, h, leadSteps]
  by_cases hf : first = []
  · have habs := isAbsolute_of_pieces (hf ▸ h)
    by_cases hr : rest = []
    · have hrel : ¬p.isAbsolute = true := fun ha => habs.mp ha hr
      simp [hf, hr, hrel]
    · simp [hf, hr, habs.mpr hr]
  · simp [hf]

theorem leadSteps_congr {first : List Char} {rest more : List (List Char)}
    (h : ¬(first = [] ∧ rest = [])) (hmore : more ≠ []) :
    leadSteps first rest = leadSteps first more := by
  by_cases hf : first = []
  · have hr : rest ≠ [] := fun hr => h ⟨hf, hr⟩
    rw [leadSteps, leadSteps, if_pos hf, if_pos hf, if_neg hr, if_neg hmore]
  · rw [leadSteps, leadSteps, if_neg hf, if_neg hf]

/-- A name that is joined is the last piece, in place of the empty one after a trailing separator. -/
theorem exists_pieces_join {p : Path} (hp : p.text ≠ "") {n : String} (hn : IsFileName n) :
    ∃ first rest idle, pieces p.text.toList = first :: (rest ++ idle) ∧ (idle = [] ∨ idle = [[]]) ∧
      ¬(first = [] ∧ rest ++ idle = []) ∧
      pieces (p.join n).text.toList = first :: (rest ++ [n.toList]) := by
  have hhead : n.toList.head? ≠ some '/' := fun h => hn.2.2.2 (List.mem_of_head? h)
  have hsplit : ∀ t : List Char, (t ++ '/' :: n.toList).splitOn '/' = t.splitOn '/' ++ [n.toList] :=
    fun t => by rw [List.splitOn_append_cons_self, List.splitOn_eq_singleton hn.2.2.2]
  rw [join, if_neg (by simp [hhead, hp])]
  by_cases hlast : p.text.toList.getLast? = some '/'
  · obtain ⟨w, hw⟩ := List.getLast?_eq_some_iff.mp hlast
    obtain ⟨first, rest, hfirst⟩ := List.exists_cons_of_ne_nil (List.splitOn_ne_nil '/' w)
    refine ⟨first, rest, [[]], ?_, Or.inr rfl, by simp, ?_⟩
    · rw [pieces, hw, List.splitOn_append_cons_self, hfirst, List.splitOn_nil, List.cons_append]
    · rw [if_pos (by simpa using hlast), pieces, String.toList_append, hw, List.append_assoc,
        List.singleton_append, hsplit, hfirst, List.cons_append]
  · obtain ⟨first, rest, hfirst⟩ :=
      List.exists_cons_of_ne_nil (List.splitOn_ne_nil '/' p.text.toList)
    refine ⟨first, rest, [], by rw [List.append_nil]; exact hfirst, Or.inl rfl, ?_, ?_⟩
    · rintro ⟨rfl, hrest⟩
      have htext := @List.intercalate_splitOn _ p.text.toList _ _ '/'
      rw [hfirst, ← List.append_nil rest, hrest] at htext
      exact hp (String.toList_eq_nil_iff.mp htext.symm)
    · rw [if_neg (by simpa using hlast), pieces, String.toList_append, String.toList_append,
        List.append_assoc]
      exact (hsplit p.text.toList).trans (by rw [hfirst, List.cons_append])

/-- **Joining a name adds a step**, to a path of any kind. -/
theorem steps_join_name (p : Path) {n : String} (hn : IsFileName n) :
    (p.join n).steps = p.steps ++ [.name n] := by
  by_cases hempty : p.text = ""
  · have hp : pieces p.text.toList = [] :: [] := by rw [hempty]; rfl
    have hjoin : p.join n = ⟨n⟩ := by rw [join, if_pos (Or.inr hempty)]
    have hpieces : pieces (⟨n⟩ : Path).text.toList = n.toList :: [] := List.splitOn_eq_singleton hn.2.2.2
    have hdot : n.toList ≠ ['.'] := fun h => hn.2.1 (String.toList_inj.mp (by rw [h]; rfl))
    rw [hjoin, steps_of_pieces hpieces, steps_of_pieces hp, leadSteps, if_neg hn.toList_ne_nil,
      if_neg hdot, hn.stepOf?]
    rfl
  · obtain ⟨first, rest, idle, hp, hidle, hlead, hj⟩ := exists_pieces_join hempty hn
    have hnone : idle.filterMap stepOf? = [] := by
      rcases hidle with rfl | rfl <;> simp [stepOf?]
    have hname : [n.toList].filterMap stepOf? = [.name n] :=
      List.filterMap_cons_some hn.stepOf?
    have hsame : leadSteps first (rest ++ idle) = leadSteps first (rest ++ [n.toList]) :=
      leadSteps_congr hlead (by simp)
    rw [steps_of_pieces hp, steps_of_pieces hj, hsame, List.filterMap_append, List.filterMap_append,
      hnone, hname, List.append_nil, List.append_assoc]

/-! ## What is left of a child -/

/-- The last step of some pieces stands between idle ones. -/
theorem exists_last_piece {ps : List (List Char)} {ss : List Step} {s : Step}
    (h : ps.filterMap stepOf? = ss ++ [s]) :
    ∃ piece, stepOf? piece = some s ∧
      trimPieces ((dropSteps ss.length ps).dropWhile fun q => (stepOf? q).isNone) = [piece] := by
  obtain ⟨body, last, rfl, hbody, hlast⟩ := List.filterMap_eq_append_iff.mp h
  obtain ⟨before, piece, after, rfl, hbefore, hpiece, hafter⟩ := List.filterMap_eq_cons_iff.mp hlast
  obtain ⟨idle, hidle, hdrop⟩ := dropSteps_append body (before ++ piece :: after) _ rfl
  have hstep : stepOf? piece ≠ none := by simp [hpiece]
  have hahead : ∀ q ∈ idle ++ before, stepOf? q = none := by
    intro q hq
    rcases List.mem_append.mp hq with hq | hq
    · exact hidle q hq
    · exact hbefore q hq
  have hbehind : ∀ q ∈ after.reverse, stepOf? q = none := fun q hq =>
    List.filterMap_eq_nil_iff.mp hafter q (List.mem_reverse.mp hq)
  refine ⟨piece, hpiece, ?_⟩
  rw [← hbody, hdrop, ← List.append_assoc, dropWhile_idle hahead (by simpa using hstep), trimPieces,
    List.reverse_cons, dropWhile_idle hbehind (by simpa using hstep), List.reverse_singleton]

theorem stepOf?_ne_lead (piece : List Char) :
    stepOf? piece ≠ some .root ∧ stepOf? piece ≠ some .here := by
  rw [stepOf?]
  split
  · simp
  · split <;> simp

theorem ofList_of_stepOf? {piece : List Char} {n : String} (h : stepOf? piece = some (.name n)) :
    String.ofList piece = n := by
  rw [stepOf?] at h
  split at h
  · simp at h
  · split at h
    · simp at h
    · simpa using h

/-- The first piece of a path with steps is a separator's, a `.`, or a step. -/
theorem leadSteps_cases {first : List Char} {rest : List (List Char)} {s : Step} {ss : List Step}
    (h : leadSteps first rest ++ rest.filterMap stepOf? = s :: ss) :
    (s = .root ∨ s = .here) ∧ (first = [] ∨ first = ['.']) ∧ rest.filterMap stepOf? = ss ∨
      (s ≠ .root ∧ s ≠ .here) ∧ stepOf? first = some s ∧ rest.filterMap stepOf? = ss := by
  rw [leadSteps] at h
  by_cases hf : first = []
  · rw [if_pos hf] at h
    by_cases hr : rest = []
    · simp [hr] at h
    · rw [if_neg hr, List.singleton_append, List.cons.injEq] at h
      exact Or.inl ⟨Or.inl h.1.symm, Or.inl hf, h.2⟩
  · rw [if_neg hf] at h
    by_cases hd : first = ['.']
    · rw [if_pos hd, List.singleton_append, List.cons.injEq] at h
      exact Or.inl ⟨Or.inr h.1.symm, Or.inr hd, h.2⟩
    · obtain ⟨t, ht⟩ : ∃ t, stepOf? first = some t := by
        rw [stepOf?, if_neg (by simp [hf, hd])]
        split <;> exact ⟨_, rfl⟩
      rw [if_neg hd, ht, Option.toList_some, List.singleton_append, List.cons.injEq] at h
      obtain ⟨rfl, hrest⟩ := h
      obtain ⟨hroot, hhere⟩ := stepOf?_ne_lead first
      exact Or.inr ⟨⟨fun e => hroot (by rw [ht, e]), fun e => hhere (by rw [ht, e])⟩, ht, hrest⟩

/-- **Of a path with one step more than a root, the name of that step is left.** -/
theorem relativeTo?_of_steps {root p : Path} {n : String} (h : p.steps = root.steps ++ [.name n]) :
    relativeTo? root p = some n := by
  have hunder : p.under root = true := under_iff.mpr ⟨_, h.symm⟩
  obtain ⟨first, rest, hp⟩ := List.exists_cons_of_ne_nil (List.splitOn_ne_nil '/' p.text.toList)
  have hpieces : pieces p.text.toList = first :: rest := hp
  rw [steps_of_pieces hpieces] at h
  rw [relativeTo?, if_neg (by simp [hunder]), hpieces]
  cases hr : root.steps with
  | nil =>
    rw [hr, List.nil_append] at h
    rcases leadSteps_cases h with ⟨hs, _⟩ | ⟨_, hfirst, hrest⟩
    · simp at hs
    · have hidle : ∀ q ∈ rest.reverse, stepOf? q = none := fun q hq =>
        List.filterMap_eq_nil_iff.mp hrest q (List.mem_reverse.mp hq)
      have htrim : trimPieces rest = [] := by
        have hall : (rest.reverse ++ []).dropWhile (fun q => (stepOf? q).isNone) = [] :=
          dropWhile_idle hidle (by simp)
        rw [trimPieces, ← List.append_nil rest.reverse, hall, List.reverse_nil]
      have hne : first ≠ [] := by
        rintro rfl
        simp [stepOf?] at hfirst
      simp [htrim, hne, ofList_of_stepOf? hfirst]
  | cons lead names =>
    rw [hr, List.cons_append] at h
    rcases leadSteps_cases h with ⟨hs, _, hrest⟩ | ⟨⟨hroot, hhere⟩, hfirst, hrest⟩
    · obtain ⟨piece, hpiece, hleft⟩ := exists_last_piece hrest
      rcases hs with rfl | rfl
      all_goals simp [hleft, ofList_of_stepOf? hpiece]
    · have hall : (first :: rest).filterMap stepOf? = (lead :: names) ++ [.name n] := by
        rw [List.filterMap_cons_some hfirst, hrest, List.cons_append]
      obtain ⟨piece, hpiece, hleft⟩ := exists_last_piece hall
      rw [List.length_cons] at hleft
      cases lead with
      | root => exact absurd rfl hroot
      | here => exact absurd rfl hhere
      | up | name _ => simp [hleft, ofList_of_stepOf? hpiece]

end SiteAssist.Path
