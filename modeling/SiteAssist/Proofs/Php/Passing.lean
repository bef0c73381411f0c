import Mathlib.Data.List.Infix
import Mathlib.Data.List.TakeWhile
import SiteAssist.Php.Declaration

/-!
# Passing over code

The functions that pass over a part of the code leave **an end of the tokens that they were given**, however
the code is mended where it is not well formed.
-/

namespace SiteAssist.Php

variable {ts rest : List Token}

/-! ## Groups and expressions -/

theorem dropTrivia_suffix (ts : List Token) : dropTrivia ts <:+ ts := List.dropWhile_suffix _

theorem exists_of_nextIsMark {m : String} (h : nextIsMark m ts = true) :
    ∃ rest, dropTrivia ts = .mark m :: rest := by
  rw [nextIsMark, beq_iff_eq, List.head?_eq_some_iff] at h
  exact h

theorem suffix_of_dropTrivia {t : Token} (h : dropTrivia ts = t :: rest) : rest <:+ ts :=
  (h ▸ List.suffix_cons t rest).trans (dropTrivia_suffix ts)

theorem dropNext_suffix (ts : List Token) : dropNext ts <:+ ts :=
  (List.drop_suffix 1 _).trans (dropTrivia_suffix ts)

theorem afterBrackets_suffix (afterFor : Bool) (open' : List Bracket) (ts : List Token) :
    afterBrackets afterFor open' ts <:+ ts := by
  fun_induction afterBrackets afterFor open' ts with
  | case1 => exact List.suffix_rfl
  | case2 => exact List.suffix_rfl
  | case3 => exact List.suffix_cons _ _
  | case4 => exact List.suffix_rfl
  | case5 _ _ _ _ _ _ ih => exact ih.trans (List.suffix_cons _ _)
  | case6 _ _ _ _ _ ih => exact ih.trans (List.suffix_cons _ _)
  | case7 _ _ _ _ _ _ _ ih => exact ih.trans (List.suffix_cons _ _)

theorem afterGroupOf_suffix (ofFor : Bool) (ts : List Token) : afterGroupOf ofFor ts <:+ ts := by
  unfold afterGroupOf
  split
  · rename_i m rest h
    split
    · exact (afterBrackets_suffix _ _ _).trans (suffix_of_dropTrivia h)
    · exact List.suffix_rfl
  · exact List.suffix_rfl

theorem afterGroup_suffix (ts : List Token) : afterGroup ts <:+ ts := afterGroupOf_suffix false ts

theorem afterExpression_suffix (open' : List Bracket) (previous : Option Token) (ts : List Token) :
    afterExpression open' previous ts <:+ ts := by
  fun_induction afterExpression open' previous ts with
  | case1 => exact List.suffix_rfl
  | case2 | case4 => exact List.suffix_cons _ _
  | case3 | case5 | case7 | case9 => exact List.suffix_rfl
  | case6 _ _ _ _ _ _ _ _ _ ih => exact ih.trans (List.suffix_cons _ _)
  | case8 _ _ _ _ _ ih => exact ih.trans (List.suffix_cons _ _)
  | case10 _ _ _ _ _ ih => exact ih.trans (List.suffix_cons _ _)
  | case11 _ _ _ _ ih => exact ih.trans (List.suffix_cons _ _)
  | case12 _ _ _ _ ih => exact ih.trans (List.suffix_cons _ _)
  | case13 _ _ _ _ _ _ _ _ _ ih => exact ih.trans (List.suffix_cons _ _)

theorem afterSemicolon_suffix (ts : List Token) : afterSemicolon ts <:+ ts := by
  unfold afterSemicolon
  split
  · exact dropNext_suffix ts
  · exact List.suffix_rfl

theorem afterHeadAndBlock_suffix (ts : List Token) : afterHeadAndBlock ts <:+ ts := by
  have hrest := List.dropWhile_suffix (l := ts)
    fun t => !(["\x7b", ";", "\x7d"].any fun m => t == .mark m)
  unfold afterHeadAndBlock
  dsimp only
  split
  · exact (afterGroup_suffix _).trans hrest
  · exact hrest

/-- What follows a statement is an end of the tokens, and so is what follows each of its parts. -/
theorem statement_suffix (fuel : Nat) :
    (∀ ts, afterStatement fuel ts <:+ ts) ∧ (∀ ts, afterBranches fuel ts <:+ ts) ∧
      (∀ k ts, afterLoop k fuel ts <:+ ts) ∧ (∀ ts, afterHandlers fuel ts <:+ ts) ∧
      (∀ k ts, afterColonBlock k fuel ts <:+ ts) := by
  induction fuel with
  | zero =>
    exact ⟨fun _ => List.nil_suffix, fun _ => List.nil_suffix, fun _ _ => List.nil_suffix,
      fun _ => List.nil_suffix, fun _ _ => List.nil_suffix⟩
  | succ fuel ih =>
    obtain ⟨hstatement, hbranches, hloop, hhandlers, hblock⟩ := ih
    refine ⟨fun ts => ?_, fun ts => ?_, fun k ts => ?_, fun ts => ?_, fun k ts => ?_⟩
    · unfold afterStatement
      split
      · exact List.nil_suffix
      · rename_i h
        exact (afterBrackets_suffix _ _ _).trans (suffix_of_dropTrivia h)
      · rename_i h
        exact h ▸ dropTrivia_suffix ts
      · rename_i h
        exact suffix_of_dropTrivia h
      · rename_i s rest h
        refine List.IsSuffix.trans ?_ (suffix_of_dropTrivia h)
        -- every keyword leaves what follows it to the functions above, or to those of less fuel
        split <;>
          grind [List.IsSuffix.trans, List.dropWhile_suffix, dropNext_suffix, afterGroup_suffix,
            afterGroupOf_suffix, afterSemicolon_suffix, afterExpression_suffix, afterHeadAndBlock_suffix]
      · rename_i h
        exact (hstatement _).trans ((afterBrackets_suffix _ _ _).trans (suffix_of_dropTrivia h))
      · rename_i h
        refine List.IsSuffix.trans ?_ (suffix_of_dropTrivia h)
        split <;> exact afterExpression_suffix _ _ _
    · unfold afterBranches
      split
      · exact (hbranches _).trans ((hstatement _).trans ((afterGroup_suffix _).trans (dropNext_suffix ts)))
      · split
        · exact (hstatement _).trans (dropNext_suffix ts)
        · exact List.suffix_rfl
    · unfold afterLoop
      split
      · exact (hblock k _).trans (dropNext_suffix ts)
      · exact hstatement ts
    · unfold afterHandlers
      split
      · exact (hhandlers _).trans ((afterGroup_suffix _).trans ((afterGroup_suffix _).trans (dropNext_suffix ts)))
      · split
        · exact (hhandlers _).trans ((afterGroup_suffix _).trans (dropNext_suffix ts))
        · exact List.suffix_rfl
    · unfold afterColonBlock
      split
      · exact List.nil_suffix
      · rename_i h
        exact h ▸ dropTrivia_suffix ts
      · dsimp only
        refine List.IsSuffix.trans ?_ (dropTrivia_suffix ts)
        grind [List.IsSuffix.trans, dropNext_suffix, afterGroup_suffix, afterSemicolon_suffix]

theorem afterStatement_suffix (fuel : Nat) (ts : List Token) :
    afterStatement fuel ts <:+ ts := (statement_suffix fuel).1 ts

/-! ## Members -/

theorem afterAttributes_suffix (fuel : Nat) (ts : List Token) :
    afterAttributes fuel ts <:+ ts := by
  induction fuel generalizing ts with
  | zero => exact List.suffix_rfl
  | succ fuel ih => grind [afterAttributes, List.IsSuffix.trans, afterGroup_suffix]

theorem afterModifiers_suffix (fuel : Nat) (ts : List Token) :
    afterModifiers fuel ts <:+ ts := by
  induction fuel generalizing ts with
  | zero => exact List.suffix_rfl
  | succ fuel ih => grind [afterModifiers, List.IsSuffix.trans, dropNext_suffix]

theorem afterClassModifiers_suffix (fuel : Nat) (ts : List Token) :
    afterClassModifiers fuel ts <:+ ts := by
  induction fuel generalizing ts with
  | zero => exact List.suffix_rfl
  | succ fuel ih => grind [afterClassModifiers, List.IsSuffix.trans, dropNext_suffix]

theorem afterMember_suffix (open' : List Bracket) (named : Bool) (ts : List Token) :
    afterMember open' named ts <:+ ts := by
  induction ts generalizing open' named with
  | nil => exact List.suffix_rfl
  | cons t ts ih =>
    have htail := List.suffix_cons t ts
    unfold afterMember
    dsimp only
    split
    · split
      · exact htail
      · split
        · exact List.suffix_rfl
        · split
          · exact htail
          · exact (ih _ _).trans htail
    · split
      · exact List.suffix_rfl
      · exact (ih _ _).trans htail
    · exact (ih _ _).trans htail

theorem afterMethod_suffix (ts : List Token) : afterMethod ts <:+ ts := by
  grind [afterMethod, List.IsSuffix.trans, List.dropWhile_suffix, afterGroup_suffix, afterSemicolon_suffix]

theorem dropTrivia_append (ts : List Token) : ts.takeWhile Token.isTrivia ++ dropTrivia ts = ts :=
  List.takeWhile_append_dropWhile

theorem filter_takeWhile_isTrivia (ts : List Token) :
    (ts.takeWhile Token.isTrivia).filter (!·.isTrivia) = [] :=
  List.filter_eq_nil_iff.mpr fun t ht => by simp [List.mem_takeWhile_imp ht]

/-- Before the name of a function nothing counts but an ampersand. -/
theorem exists_of_nameOf? {name : String} (h : nameOf? ts = some (name, rest)) :
    ∃ gap, ts = gap ++ .word name :: rest ∧
      (gap.filter (!·.isTrivia) = [] ∨ gap.filter (!·.isTrivia) = [.mark "&"]) := by
  have hts := dropTrivia_append ts
  unfold nameOf? at h
  dsimp only at h
  split at h
  · rename_i name' rest' hword
    obtain ⟨rfl, rfl⟩ := Prod.mk.inj (Option.some.inj h)
    split at hword
    · rename_i hmark
      obtain ⟨ts', hts'⟩ := exists_of_nextIsMark hmark
      have hgap := dropTrivia_append ts'
      rw [dropNext, hts', List.drop_one, List.tail_cons] at hword
      rw [hword] at hgap
      rw [hts', ← hgap] at hts
      refine ⟨ts.takeWhile Token.isTrivia ++ .mark "&" :: ts'.takeWhile Token.isTrivia, ?_, .inr ?_⟩
      · rw [List.append_assoc, List.cons_append, hts]
      · rw [List.filter_append, filter_takeWhile_isTrivia, List.filter_cons_of_pos rfl,
          filter_takeWhile_isTrivia, List.nil_append]
    · rw [hword] at hts
      exact ⟨_, hts.symm, .inl (filter_takeWhile_isTrivia ts)⟩
  · nomatch h

theorem nameOf?_suffix {name : String} (h : nameOf? ts = some (name, rest)) : rest <:+ ts := by
  obtain ⟨gap, rfl, -⟩ := exists_of_nameOf? h
  exact (List.suffix_cons _ _).trans (List.suffix_append _ _)

theorem members_suffix (doc : Option String) (fuel : Nat) (ts : List Token) :
    (members doc fuel ts).2 <:+ ts := by
  induction fuel generalizing doc ts with
  | zero => exact List.nil_suffix
  | succ fuel ih =>
    cases ts with
    | nil => exact List.nil_suffix
    | cons t ts =>
      have htail := List.suffix_cons t ts
      unfold members
      split
      · exact (ih _ _).trans htail
      · exact (ih _ _).trans htail
      · exact (ih _ _).trans htail
      · exact htail
      · exact (ih _ _).trans htail
      · have hbody := (dropNext_suffix _).trans ((afterModifiers_suffix (ts.length + 1) _).trans
          (afterAttributes_suffix (ts.length + 1) (t :: ts)))
        dsimp only
        split
        · split
          · rename_i hname
            exact (ih _ _).trans ((afterMethod_suffix _).trans ((nameOf?_suffix hname).trans hbody))
          · exact (ih _ _).trans ((afterMember_suffix _ _ _).trans hbody)
        · split
          · exact (ih _ _).trans ((afterMember_suffix _ _ _).trans htail)
          · exact (ih _ _).trans ((afterMember_suffix _ _ _).trans htail)

theorem splitHead_append (open' : List Bracket) (previous : Option Token) (ts : List Token) :
    (splitHead open' previous ts).1 ++ (splitHead open' previous ts).2 = ts := by
  induction ts generalizing open' previous with
  | nil => simp [splitHead]
  | cons t ts ih => cases t <;> grind [splitHead]

theorem splitHead_suffix (open' : List Bracket) (previous : Option Token) (ts : List Token) :
    (splitHead open' previous ts).2 <:+ ts := ⟨_, splitHead_append open' previous ts⟩

end SiteAssist.Php
