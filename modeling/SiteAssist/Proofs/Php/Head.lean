import SiteAssist.Proofs.Php.Passing
import SiteAssist.Proofs.Text.Lines

/-!
# The head of a function

Each function of an outline has a head that stands in the tokens of the file (`exists_headAt`).  Such a head is
**parted by the name that it declares**: attributes, the keyword, a gap in which nothing counts but an ampersand,
the name, and the parameters (`HeadParts`, `HeadAt.exists_parts`).  Its signature is what these tokens write, so
the name stands in it between what is written before and after (`HeadParts.toList_signature`).
-/

namespace SiteAssist.Php

variable {ts rest hd : List Token}

/-! ## Words -/

/-- A word is a run of word characters. -/
theorem next_word {s : String} {cs : List Char} (h : (next cs).1 = .word s) :
    ∀ c ∈ s.toList, isWordRest c = true := by
  unfold next at h
  dsimp only at h
  split at h
  · nomatch h
  · nomatch h
  · split at h
    · nomatch h
    · split at h
      · nomatch h
      · split at h
        · nomatch h
        · split at h
          · intro c hc
            rw [← Token.word.inj h, String.toList_ofList, List.span_eq_takeWhile_dropWhile] at hc
            exact List.mem_takeWhile_imp hc
          · split at h <;> nomatch h

theorem codeTokens_word {s : String} (fuel : Nat) (cs : List Char) (h : .word s ∈ codeTokens fuel cs) :
    ∀ c ∈ s.toList, isWordRest c = true := by
  induction fuel generalizing cs with
  | zero => simp [codeTokens] at h
  | succ fuel ih =>
    cases cs with
    | nil => simp [codeTokens] at h
    | cons c cs =>
      simp only [codeTokens, List.mem_cons] at h
      rcases h with h | h
      · exact next_word h.symm
      · exact ih _ h

theorem tokens_word {s source : String} (h : .word s ∈ tokens source) :
    ∀ c ∈ s.toList, isWordRest c = true := by
  unfold tokens at h
  rcases List.mem_cons.mp h with h | h
  · nomatch h
  · exact codeTokens_word _ _ h

/-! ## Attributes

A head is read twice: with all that follows it, to find that it is one, and alone.  What passes over
attributes does the same both times, unless it runs to the end of the head. -/

theorem dropTrivia_append_of_ne_nil (h : dropTrivia hd ≠ []) (tl : List Token) :
    dropTrivia (hd ++ tl) = dropTrivia hd ++ tl := by
  unfold dropTrivia at h ⊢
  rw [List.dropWhile_append, if_neg (by simpa using h)]

theorem nextIsMark_append_of_ne_nil (h : dropTrivia hd ≠ []) (m : String) (tl : List Token) :
    nextIsMark m (hd ++ tl) = nextIsMark m hd := by
  rw [nextIsMark, nextIsMark, dropTrivia_append_of_ne_nil h, List.head?_append_of_ne_nil _ h]

/-- What follows the tokens is not reached, unless they all are passed. -/
theorem afterBrackets_append (afterFor : Bool) (open' : List Bracket) (hd tl : List Token) :
    afterBrackets afterFor open' hd = [] ∨
      afterBrackets afterFor open' (hd ++ tl) = afterBrackets afterFor open' hd ++ tl := by
  fun_induction afterBrackets afterFor open' hd with
  | case1 => exact .inl rfl
  | case2 _ _ hne =>
    obtain ⟨t, ts, rfl⟩ := List.exists_cons_of_ne_nil hne
    exact .inr rfl
  | case3 _ _ _ _ _ hnow hlast =>
    refine .inr ?_
    rw [List.cons_append, afterBrackets, hnow]
    exact if_pos hlast
  | case4 _ _ _ _ _ hnow hlast =>
    refine .inr ?_
    rw [List.cons_append, afterBrackets, hnow]
    exact if_neg hlast
  | case5 _ _ _ _ _ hnow ih =>
    refine ih.imp_right fun ih => ?_
    rw [List.cons_append, afterBrackets]
    split
    · rename_i hnil
      exact absurd hnil hnow
    · exact ih
  | case6 _ _ _ _ _ ih => rwa [List.cons_append, afterBrackets]
  | case7 _ _ _ _ _ hmark hword ih =>
    rw [List.cons_append, afterBrackets]
    · exact ih
    · exact hmark
    · exact hword

theorem afterGroup_append (hd tl : List Token) :
    dropTrivia (afterGroup hd) = [] ∨ afterGroup (hd ++ tl) = afterGroup hd ++ tl := by
  by_cases hne : dropTrivia hd = []
  · left
    rw [afterGroup, afterGroupOf, hne]
    exact hne
  · rw [afterGroup, afterGroup, afterGroupOf, afterGroupOf, dropTrivia_append_of_ne_nil hne]
    obtain ⟨t, rest, ht⟩ := List.exists_cons_of_ne_nil hne
    rw [ht, List.cons_append]
    cases t with
    | mark m =>
      dsimp only
      cases Bracket.opened? m false with
      | none => exact .inr rfl
      | some b =>
        dsimp only
        rcases afterBrackets_append false [b] rest tl with h | h
        · exact .inl (by rw [h]; rfl)
        · exact .inr h
    | _ => exact .inr rfl

theorem afterAttributes_of_trivia (h : dropTrivia hd = []) (fuel : Nat) : afterAttributes fuel hd = hd := by
  cases fuel with
  | zero => rfl
  | succ fuel =>
    rw [afterAttributes, nextIsMark, h]
    rfl

theorem length_afterGroup_lt {m : String} (h : nextIsMark m hd = true)
    (hm : (Bracket.opened? m false).isSome = true) : (afterGroup hd).length < hd.length := by
  obtain ⟨rest, hrest⟩ := exists_of_nextIsMark h
  obtain ⟨b, hb⟩ := Option.isSome_iff_exists.mp hm
  have hlt : rest.length < hd.length := by
    have hle := (dropTrivia_suffix hd).length_le
    rw [hrest, List.length_cons] at hle
    exact hle
  rw [afterGroup, afterGroupOf, hrest]
  dsimp only
  rw [hb]
  exact Nat.lt_of_le_of_lt (afterBrackets_suffix _ _ _).length_le hlt

theorem afterAttributes_append (m n : Nat) (hd tl : List Token) (hm : hd.length ≤ m) (hn : m ≤ n) :
    dropTrivia (afterAttributes m hd) = [] ∨
      afterAttributes n (hd ++ tl) = afterAttributes m hd ++ tl := by
  -- each group that is passed shortens the tokens, so that fuel for all of them is enough
  induction m generalizing n hd with
  | zero =>
    obtain rfl := List.length_eq_zero_iff.mp (Nat.le_zero.mp hm)
    exact .inl rfl
  | succ m ih =>
    obtain ⟨n, rfl⟩ := Nat.exists_eq_add_of_le' (Nat.le_of_add_left_le hn)
    by_cases hne : dropTrivia hd = []
    · left
      rw [afterAttributes, nextIsMark, hne]
      exact hne
    · rw [afterAttributes, afterAttributes, nextIsMark_append_of_ne_nil hne]
      split
      · rename_i hmark
        have hlt := length_afterGroup_lt hmark rfl
        rcases afterGroup_append hd tl with h | h
        · left
          rw [afterAttributes_of_trivia h]
          exact h
        · rw [h]
          exact ih _ _ (by omega) (by omega)
      · exact .inr rfl

theorem exists_word_afterAttributes {s : String} {tl : List Token}
    (hne : dropTrivia (afterAttributes hd.length hd) ≠ [])
    (h : dropTrivia (afterAttributes (hd ++ tl).length (hd ++ tl)) = .word s :: rest) :
    ∃ rest', dropTrivia (afterAttributes hd.length hd) = .word s :: rest' := by
  have hle : hd.length ≤ (hd ++ tl).length := by
    rw [List.length_append]
    exact Nat.le_add_right _ _
  rw [(afterAttributes_append hd.length _ hd tl (Nat.le_refl _) hle).resolve_left hne,
    dropTrivia_append_of_ne_nil hne] at h
  obtain ⟨t, rest', ht⟩ := List.exists_cons_of_ne_nil hne
  rw [ht, List.cons_append, List.cons.injEq] at h
  exact ⟨rest', h.1 ▸ ht⟩

/-! ## Heads in the tokens -/

/-- A head stands here, past the attributes. -/
def HeadAt (ts : List Token) (head : Head) : Prop :=
  ∃ s rest, dropTrivia (afterAttributes ts.length ts) = .word s :: rest ∧ lower s = "function" ∧
    Head.ofTokens? (splitHead [] none ts).1 = some head

/-- The functions among some declarations all have a property, and what follows is an end of the
tokens. -/
def Outlined (ts : List Token) (P : Head → Prop) (r : List Declaration × List Token) : Prop :=
  r.2 <:+ ts ∧ ∀ d head, .function d head ∈ r.1 → P head

/-- A head stands somewhere in the tokens. -/
def Within (ts : List Token) (head : Head) : Prop := ∃ us, us <:+ ts ∧ HeadAt us head

theorem Outlined.nil {P : Head → Prop} (h : rest <:+ ts) : Outlined ts P ([], rest) :=
  ⟨h, fun _ _ hm => nomatch hm⟩

theorem Outlined.mono {r : List Declaration × List Token} (hrest : rest <:+ ts)
    (h : Outlined rest (Within rest) r) : Outlined ts (Within ts) r := by
  refine ⟨h.1.trans hrest, fun d head hm => ?_⟩
  obtain ⟨us, hus, hhead⟩ := h.2 d head hm
  exact ⟨us, hus.trans hrest, hhead⟩

/-- One declaration, given what stands in the blocks after it. -/
theorem outlined_declaration_succ {fuel : Nat} (hblocks : ∀ ts, (declarations true none fuel ts).2 <:+ ts)
    (doc : Option String) (ts : List Token) : Outlined ts (HeadAt ts) (declaration doc (fuel + 1) ts) := by
  have hbody := afterAttributes_suffix ts.length ts
  have hhead := splitHead_suffix [] none ts
  have hother : Outlined ts (HeadAt ts) ([], afterStatement (ts.length + 1) ts) :=
    .nil (afterStatement_suffix _ _)
  have hblock : ∀ {us}, us <:+ ts → Outlined ts (HeadAt ts)
      ([.block (declarations true none fuel us).1], (declarations true none fuel us).2) := by
    intro us hus
    refine ⟨(hblocks us).trans hus, fun d head hm => ?_⟩
    nomatch List.mem_singleton.mp hm
  unfold declaration
  dsimp only
  split
  · rename_i h
    exact hblock ((suffix_of_dropTrivia h).trans hbody)
  · rename_i s rest h
    have hrest := (suffix_of_dropTrivia h).trans hbody
    split
    · rename_i hs
      split
      · exact hother
      · split
        · exact .nil hhead
        · split
          · rename_i hof
            refine ⟨(afterGroup_suffix _).trans hhead, fun d head hm => ?_⟩
            obtain ⟨rfl, rfl⟩ := Declaration.function.inj (List.mem_singleton.mp hm)
            exact ⟨s, rest, h, hs, hof⟩
          · exact .nil ((afterGroup_suffix _).trans hhead)
    · refine ⟨hother.1, fun d head hm => ?_⟩
      obtain ⟨_, _, he⟩ := List.mem_map.mp hm
      nomatch he
    · split
      · exact hother
      · have hnamed := (splitHead_suffix [] none rest).trans hrest
        split
        · exact hblock ((dropNext_suffix _).trans hnamed)
        · exact .nil ((afterSemicolon_suffix _).trans hnamed)
    · have hnamed := (splitHead_suffix [] none _).trans
        ((afterClassModifiers_suffix (afterAttributes ts.length ts).length _).trans hbody)
      split
      · split
        · split
          · exact .nil hnamed
          · refine ⟨(members_suffix _ _ _).trans ((dropNext_suffix _).trans hnamed), fun d head hm => ?_⟩
            nomatch List.mem_singleton.mp hm
        · exact hother
      · exact hother
  · exact hother

/-- The functions of an outline are heads that stand in the tokens. -/
theorem outlined (fuel : Nat) :
    (∀ nested doc ts, Outlined ts (Within ts) (declarations nested doc fuel ts)) ∧
      (∀ doc ts, Outlined ts (HeadAt ts) (declaration doc fuel ts)) := by
  induction fuel with
  | zero =>
    refine ⟨fun nested doc ts => ?_, fun doc ts => ?_⟩
    · rw [declarations]; exact .nil List.nil_suffix
    · rw [declaration]; exact .nil List.nil_suffix
  | succ fuel ih =>
    obtain ⟨hall, hone⟩ := ih
    refine ⟨fun nested doc ts => ?_, outlined_declaration_succ fun ts => (hall true none ts).1⟩
    cases ts with
    | nil => simpa [declarations] using Outlined.nil List.suffix_rfl
    | cons t ts =>
      have htail := List.suffix_cons t ts
      unfold declarations
      split
      · exact (hall ..).mono htail
      · exact (hall ..).mono htail
      · exact (hall ..).mono htail
      · split
        · exact .nil htail
        · exact (hall ..).mono htail
      · exact (hall ..).mono htail
      · obtain ⟨hrest, hfound⟩ := hone doc (t :: ts)
        obtain ⟨hend, hmore⟩ := (hall nested none _).mono hrest
        refine ⟨hend, fun d head hm => ?_⟩
        rcases List.mem_append.mp hm with hm | hm
        · exact ⟨_, List.suffix_rfl, hfound d head hm⟩
        · exact hmore d head hm

/-- **Every function of an outline** stands in the tokens of the file. -/
theorem exists_headAt {source : String} {doc : Option String} {head : Head}
    (h : .function doc head ∈ outline source) : ∃ us, us <:+ tokens source ∧ HeadAt us head :=
  ((outlined _).1 false none _).2 doc head h

/-! ## The parts of a head -/

@[simp] theorem Token.written_append (ts us : List Token) : written (ts ++ us) = written ts ++ written us := by
  simp [written]

@[simp] theorem Token.written_cons (t : Token) (ts : List Token) : written (t :: ts) = t.text ++ written ts := by
  simp [written]

/-- The source of a head, parted by the name that it declares: attributes, the keyword, a gap in which
nothing counts but an ampersand, the name, and the rest with the parameters. -/
structure HeadParts (name signature : String) where
  tokens : List Token
  attributes : List Token
  keyword : String
  gap : List Token
  tail : List Token
  tokens_eq : tokens = attributes ++ .word keyword :: (gap ++ .word name :: tail)
  passed : dropTrivia (afterAttributes tokens.length tokens) = .word keyword :: (gap ++ .word name :: tail)
  lower_keyword : lower keyword = "function"
  gap_counts : gap.filter (!·.isTrivia) = [] ∨ gap.filter (!·.isTrivia) = [.mark "&"]
  tail_opens : nextIsMark "(" tail = true
  signature_eq : signature = String.ofList (Text.trimEnd (Token.written tokens).toList)

namespace HeadParts

variable {name signature : String}

/-- What stands before the name. -/
def before (p : HeadParts name signature) : String :=
  Token.written (p.attributes ++ .word p.keyword :: p.gap)

/-- What stands after the name. -/
def after (p : HeadParts name signature) : String :=
  String.ofList (Text.trimEnd (Token.written p.tail).toList)

end HeadParts

theorem mem_written_of_nextIsMark {m : String} {c : Char} (h : nextIsMark m ts = true) (hc : c ∈ m.toList) :
    c ∈ (Token.written ts).toList := by
  obtain ⟨rest, hrest⟩ := exists_of_nextIsMark h
  rw [← dropTrivia_append ts, hrest]
  simp [Token.text, hc]

/-- **The signature is what is written** before the name, the name, and what is written after it. -/
theorem HeadParts.toList_signature {name signature : String} (p : HeadParts name signature) :
    signature.toList = p.before.toList ++ (name.toList ++ p.after.toList) := by
  -- only the end is trimmed, and the parenthesis in it is no blank
  have hround := mem_written_of_nextIsMark p.tail_opens (c := '(') (by decide)
  have hwritten : (Token.written p.tokens).toList =
      (p.before.toList ++ name.toList) ++ (Token.written p.tail).toList := by
    rw [p.tokens_eq, before]
    simp [Token.text]
  rw [congrArg String.toList p.signature_eq, String.toList_ofList, hwritten,
    Text.trimEnd_append_of_mem (by decide) hround, after, String.toList_ofList, List.append_assoc]

/-- **A head that stands in the tokens is parted by its name.** -/
theorem HeadAt.exists_parts {head : Head} (h : HeadAt ts head) :
    ∃ p : HeadParts head.name head.signature, p.tokens <+: ts := by
  obtain ⟨s, rest, hword, hs, hof⟩ := h
  have hsplit := splitHead_append [] none ts
  set hd := (splitHead [] none ts).1
  obtain ⟨⟨name, tail⟩, hname, hof⟩ := Option.bind_eq_some_iff.mp hof
  dsimp only at hof
  split at hof
  · rename_i hopens
    obtain ⟨gap, hgap, hcounts⟩ := exists_of_nameOf? hname
    have hne : dropTrivia (afterAttributes hd.length hd) ≠ [] := by
      intro h
      rw [dropNext, h] at hgap
      simp at hgap
    rw [← hsplit] at hword
    obtain ⟨rest', hpassed⟩ := exists_word_afterAttributes hne hword
    rw [dropNext, hpassed, List.drop_one, List.tail_cons] at hgap
    rw [hgap] at hpassed
    obtain ⟨attributes, hattributes⟩ := (dropTrivia_suffix _).trans (afterAttributes_suffix hd.length hd)
    rw [hpassed] at hattributes
    obtain rfl := Option.some.inj hof
    exact ⟨⟨hd, attributes, s, gap, tail, hattributes.symm, hpassed, hs, hcounts, hopens, rfl⟩, _, hsplit⟩
  · cases hof

end SiteAssist.Php
