import SiteAssist.DocComment
import SiteAssist.Proofs.Text.Search

/-!
# The ways of writing a doc comment

The lines of a documentation can be laid out as a comment in many ways (`Written`).  Each line is led by a
star, or by the opener if it is the first; the closer stands on a line of its own or ends the last line;
blanks may stand at both ends of a line, which has an end of one or two characters.

* `strip_marked`: **taking the marks off a line gives back what is written on it**, whichever mark leads
  it and whether or not the closer ends it.
* `Written.lines`: so all layouts of some lines give the same lines again, but for a blank one before them.
* `firstParagraph_stop`: what follows the end of the first paragraph does not count.
* `summary_layout`: **the summary does not depend on the layout**, and is the first paragraph.
-/

namespace SiteAssist

open Text (Blanks Ended Trimmed trim trimStart trimEnd stripSuffix?)

namespace DocComment

/-! ## Lines and their marks -/

/-- A line of a documentation: blank, or a text without blanks at its ends that closes no comment. -/
def DocLine (t : List Char) : Prop := Trimmed t ∧ ¬"*/".toList <:+: t ∧ '\n' ∉ t

instance (t : List Char) : Decidable (DocLine t) := inferInstanceAs (Decidable (_ ∧ _ ∧ _))

/-- What stands after the mark that leads a line: blanks and the text of the line, and the closer if
it ends it. -/
inductive Body : Bool → List Char → List Char → Prop
  | blank {b : List Char} (hb : Blanks b) : Body false [] b
  | text {t b c : List Char} (hb : Blanks b) (hne : b ≠ []) (ht : t ≠ []) (hc : Blanks c) :
      Body false t (b ++ (t ++ c))
  | closedBlank {b c : List Char} (hb : Blanks b) (hne : b ≠ []) (hc : Blanks c) :
      Body true [] (b ++ ("*/".toList ++ c))
  | closed {t b c d : List Char} (hb : Blanks b) (hne : b ≠ []) (ht : t ≠ []) (hc : Blanks c)
      (hne' : c ≠ []) (hd : Blanks d) : Body true t (b ++ ((t ++ (c ++ "*/".toList)) ++ d))

/-- The marks that lead a line. -/
inductive Mark : List Char → Prop
  | opener : Mark "/**".toList
  | star : Mark ['*']

/-- A text without the closer at its end. -/
def unclosed (s : List Char) : List Char :=
  match stripSuffix? "*/".toList s with
  | some rest => trimEnd rest
  | none => s

variable {t l m r : List Char} {closed : Bool}

theorem unclosed_of_open (h : ¬"*/".toList <:+: t) : unclosed t = t := by
  rw [unclosed]
  split
  · rename_i rest hrest
    rw [Text.stripSuffix?_eq_some_iff] at hrest
    exact absurd ⟨rest, [], by rw [hrest, List.append_nil]⟩ h
  · rfl

theorem unclosed_append (t : List Char) : unclosed (t ++ "*/".toList) = trimEnd t := by
  rw [unclosed, Text.stripSuffix?_append]

theorem stripMarks?_opener (h : trim l = "/**".toList ++ r) :
    stripMarks? l = some (unclosed (trim r)) := by
  rw [stripMarks?, h, Text.stripPrefix?_append]
  rfl

theorem stripMarks?_star (h : trim l = '*' :: r) (hr : ∀ c ∈ r.head?, c ≠ '/') :
    stripMarks? l = some (unclosed (trimStart r)) := by
  have hopener : Text.stripPrefix? "/**".toList ('*' :: r) = none := rfl
  have hcloser : Text.stripPrefix? "*/".toList ('*' :: r) = none := by
    cases r with
    | nil => rfl
    | cons c r =>
      show (if '*' = '*' then if '/' = c then Text.stripPrefix? [] r else none else none) = none
      rw [if_pos rfl, if_neg (hr c rfl).symm]
  have hstar : Text.stripPrefix? ['*'] ('*' :: r) = some r := rfl
  rw [stripMarks?, h]
  simp only [hopener, hcloser, hstar]
  rfl

theorem stripMarks?_closer (h : trim l = "*/".toList) : stripMarks? l = none := by
  rw [stripMarks?, h]
  rfl

/-- What stands after a mark is a text between blanks, and without the closer it is the text of the
line. -/
theorem Body.exists_core {body : List Char} (h : Body closed t body) (ht : DocLine t) :
    ∃ b core c, body = b ++ (core ++ c) ∧ Blanks b ∧ Blanks c ∧ Trimmed core ∧
      (b = [] → core = []) ∧ unclosed core = t := by
  cases h with
  | blank hb =>
    exact ⟨[], [], body, rfl, Text.blanks_nil, hb, ht.1, fun _ => rfl, unclosed_of_open ht.2.1⟩
  | text hb hne _ hc => exact ⟨_, _, _, rfl, hb, hc, ht.1, fun h => absurd h hne, unclosed_of_open ht.2.1⟩
  | closedBlank hb hne hc =>
    exact ⟨_, _, _, rfl, hb, hc, by decide, fun h => absurd h hne, unclosed_append []⟩
  | @closed t b c d hb hne hne' hc _ hd =>
    refine ⟨_, _, _, rfl, hb, hd, ht.1.around hne' (by decide) (by decide) c, fun h => absurd h hne, ?_⟩
    rw [← List.append_assoc, unclosed_append, Text.trimEnd_append fun x hx => (hc x hx).1,
      ← Text.trim_eq_trimEnd ht.1.1, ht.1.trim_eq]

theorem Mark.trimmed (hm : Mark m) : Trimmed m ∧ m ≠ [] := by
  cases hm <;> exact ⟨by decide, by decide⟩

/-- **Taking the marks off a line** gives back its text. -/
theorem strip_marked {a body : List Char} (ha : Blanks a) (hm : Mark m) (h : Body closed t body)
    (ht : DocLine t) : stripMarks? (a ++ (m ++ body)) = some t := by
  obtain ⟨b, core, c, rfl, hb, hc, hcore, hempty, rfl⟩ := h.exists_core ht
  -- blanks that end the line go with it, those before a text stay
  obtain ⟨b', hb', hempty', htrim⟩ : ∃ b', Blanks b' ∧ (b' = [] → core = []) ∧
      trim (a ++ (m ++ (b ++ (core ++ c)))) = m ++ (b' ++ core) := by
    obtain ⟨htrimmed, hne⟩ := hm.trimmed
    by_cases hcore' : core = []
    · subst hcore'
      have hbc : Blanks (b ++ ([] ++ c)) := fun x hx => (List.mem_append.mp hx).elim (hb x) (hc x)
      exact ⟨[], Text.blanks_nil, fun _ => rfl, by
        rw [htrimmed.trim_between ha hbc, List.append_nil, List.append_nil]⟩
    · refine ⟨b, hb, hempty, ?_⟩
      have hall := (htrimmed.around hne hcore hcore' b).trim_between ha hc
      rwa [List.append_assoc, List.append_assoc] at hall
  cases hm with
  | opener =>
    have hall := hcore.trim_between hb' Text.blanks_nil
    rw [List.append_nil] at hall
    rw [stripMarks?_opener htrim, hall]
  | star =>
    have hhead : ∀ x ∈ (b' ++ core).head?, x ≠ '/' := by
      intro x hx
      rintro rfl
      cases b' with
      | nil =>
        rw [hempty' rfl] at hx
        nomatch hx
      | cons y b' =>
        obtain rfl : y = '/' := Option.some.inj hx
        exact absurd (hb' _ List.mem_cons_self).1 (by decide)
    rw [stripMarks?_star (r := b' ++ core) htrim hhead, Text.trimStart_append fun x hx => (hb' x hx).1,
      hcore.trimStart_eq]

/-! ## Comments -/

/-- The lines of a comment after its first: each with its star, and the closer on a line of its own or
at the end of the last. -/
inductive Lines : List (List Char) → List (List Char) → Prop
  | closer {a b : List Char} (ha : Blanks a) (hb : Blanks b) : Lines [] [a ++ ("*/".toList ++ b)]
  | last {t a body : List Char} (ha : Blanks a) (h : Body true t body) : Lines [t] [a ++ (['*'] ++ body)]
  | cons {t a body : List Char} {ts ls : List (List Char)} (ha : Blanks a) (h : Body false t body)
      (rest : Lines ts ls) : Lines (t :: ts) ((a ++ (['*'] ++ body)) :: ls)

/-- The lines of a comment, whose first holds the opener and may hold the first line as well. -/
inductive Laid : List (List Char) → List (List Char) → Prop
  | below {a b : List Char} {ts ls : List (List Char)} (ha : Blanks a) (hb : Blanks b)
      (rest : Lines ts ls) : Laid ts ((a ++ ("/**".toList ++ b)) :: ls)
  | beside {t a body : List Char} {ts ls : List (List Char)} (ha : Blanks a) (h : Body false t body)
      (rest : Lines ts ls) : Laid (t :: ts) ((a ++ ("/**".toList ++ body)) :: ls)
  | alone {t a body : List Char} (ha : Blanks a) (h : Body true t body) :
      Laid [t] [a ++ ("/**".toList ++ body)]

/-- The text is one of the ways of writing the lines as a comment. -/
inductive Written (docs : List (List Char)) (text : List Char) : Prop
  | mk {ls : List (List Char)} (laid : Laid docs ls) (ended : Ended ls text)

theorem strip_closer {a b : List Char} (ha : Blanks a) (hb : Blanks b) :
    stripMarks? (a ++ ("*/".toList ++ b)) = none :=
  stripMarks?_closer (Trimmed.trim_between (by decide) ha hb)

theorem strip_opener {a b : List Char} (ha : Blanks a) (hb : Blanks b) :
    stripMarks? (a ++ ("/**".toList ++ b)) = some [] :=
  strip_marked ha .opener (.blank hb) (by decide)

/-- All lines come back, and the closer leaves none. -/
theorem Lines.strip {ts ls : List (List Char)} (h : Lines ts ls) (hts : ∀ t ∈ ts, DocLine t) :
    ls.filterMap stripMarks? = ts := by
  induction h with
  | closer ha hb => rw [List.filterMap_cons_none (strip_closer ha hb), List.filterMap_nil]
  | last ha h =>
    rw [List.filterMap_cons_some (strip_marked ha .star h (hts _ List.mem_cons_self)), List.filterMap_nil]
  | cons ha h _ ih =>
    rw [List.filterMap_cons_some (strip_marked ha .star h (hts _ List.mem_cons_self)),
      ih fun t ht => hts t (List.mem_cons_of_mem _ ht)]

theorem Laid.strip {ts ls : List (List Char)} (h : Laid ts ls) (hts : ∀ t ∈ ts, DocLine t) :
    ls.filterMap stripMarks? = ts ∨ ls.filterMap stripMarks? = [] :: ts := by
  cases h with
  | below ha hb rest =>
    rw [List.filterMap_cons_some (strip_opener ha hb), rest.strip hts]
    exact Or.inr rfl
  | beside ha h rest =>
    rw [List.filterMap_cons_some (strip_marked ha .opener h (hts _ List.mem_cons_self)),
      rest.strip fun t ht => hts t (List.mem_cons_of_mem _ ht)]
    exact Or.inl rfl
  | alone ha h =>
    rw [List.filterMap_cons_some (strip_marked ha .opener h (hts _ List.mem_cons_self)),
      List.filterMap_nil]
    exact Or.inl rfl

/-! ## Their text -/

theorem DocLine.notMem_body {body : List Char} (ht : DocLine t) (h : Body closed t body) :
    '\n' ∉ body := by
  have hcloser : '\n' ∉ "*/".toList := by decide
  cases h with
  | blank hb => exact hb.notMem
  | text hb _ _ hc => simp only [List.mem_append, hb.notMem, ht.2.2, hc.notMem, or_self, not_false_eq_true]
  | closedBlank hb _ hc =>
    simp only [List.mem_append, hb.notMem, hcloser, hc.notMem, or_self, not_false_eq_true]
  | closed hb _ _ hc _ hd =>
    simp only [List.mem_append, hb.notMem, ht.2.2, hc.notMem, hcloser, hd.notMem, or_self,
      not_false_eq_true]

theorem notMem_marked {a body : List Char} (ha : Blanks a) (hm : '\n' ∉ m) (h : '\n' ∉ body) :
    '\n' ∉ a ++ (m ++ body) := by
  simp only [List.mem_append, ha.notMem, hm, h, or_self, not_false_eq_true]

theorem Lines.notMem {ts ls : List (List Char)} (h : Lines ts ls) (hts : ∀ t ∈ ts, DocLine t) :
    ∀ l ∈ ls, '\n' ∉ l := by
  induction h with
  | closer ha hb =>
    rw [List.forall_mem_singleton]
    exact notMem_marked ha (by decide) hb.notMem
  | last ha h =>
    rw [List.forall_mem_singleton]
    exact notMem_marked ha (by decide) ((hts _ List.mem_cons_self).notMem_body h)
  | cons ha h _ ih =>
    rw [List.forall_mem_cons]
    exact ⟨notMem_marked ha (by decide) ((hts _ List.mem_cons_self).notMem_body h),
      ih fun t ht => hts t (List.mem_cons_of_mem _ ht)⟩

theorem Laid.notMem {ts ls : List (List Char)} (h : Laid ts ls) (hts : ∀ t ∈ ts, DocLine t) :
    ∀ l ∈ ls, '\n' ∉ l := by
  cases h with
  | below ha hb rest =>
    rw [List.forall_mem_cons]
    exact ⟨notMem_marked ha (by decide) hb.notMem, rest.notMem hts⟩
  | beside ha h rest =>
    rw [List.forall_mem_cons]
    exact ⟨notMem_marked ha (by decide) ((hts _ List.mem_cons_self).notMem_body h),
      rest.notMem fun t ht => hts t (List.mem_cons_of_mem _ ht)⟩
  | alone ha h =>
    rw [List.forall_mem_singleton]
    exact notMem_marked ha (by decide) ((hts _ List.mem_cons_self).notMem_body h)

/-- What a line gives without its marks is known from its trimmed form. -/
theorem stripMarks?_trim (l : List Char) : stripMarks? (trim l) = stripMarks? l := by
  rw [stripMarks?, stripMarks?, (Text.trimmed_trim l).trim_eq]

theorem filterMap_strip_trim (ls : List (List Char)) :
    (ls.map trim).filterMap stripMarks? = ls.filterMap stripMarks? := by
  rw [List.filterMap_map]
  exact List.filterMap_congr fun l _ => stripMarks?_trim l

/-- **All layouts of some lines give them again**, but for a blank one before them. -/
theorem Written.lines {docs : List (List Char)} {text : List Char} (h : Written docs text)
    (hdocs : ∀ t ∈ docs, DocLine t) :
    ((Text.lines text).filterMap stripMarks?).map trim = docs ∨
      ((Text.lines text).filterMap stripMarks?).map trim = [] :: docs := by
  obtain ⟨laid, ended⟩ := h
  have htrim : docs.map trim = docs := by
    conv_rhs => rw [← List.map_id docs]
    exact List.map_congr_left fun t ht => (hdocs t ht).1.trim_eq
  rw [← filterMap_strip_trim, ended.map_trim_lines (laid.notMem hdocs), filterMap_strip_trim]
  rcases laid.strip hdocs with hls | hls
  · rw [hls, htrim]
    exact Or.inl rfl
  · rw [hls, List.map_cons, htrim]
    exact Or.inr rfl

/-! ## The first paragraph -/

/-- The line ends the first paragraph after the lines before it: it is a tag, or it is blank and there
is a text before it. -/
def Ends (before : List (List Char)) (l : List Char) : Prop :=
  l.head? = some '@' ∨ l = [] ∧ ∃ t ∈ before, t ≠ []

/-- The first paragraph of some lines: what stands before the line that ends it, without leading blank
lines. -/
structure Paragraph (docs p : List (List Char)) : Prop where
  text : ∀ l ∈ p, l ≠ [] ∧ l.head? ≠ some '@'
  placed : ∃ k rest, docs = List.replicate k [] ++ (p ++ rest) ∧
    ∀ l ∈ rest.head?, Ends p l

/-- A line of a paragraph: no blank one, and no tag. -/
def isInside (l : List Char) : Bool := !l.isEmpty && l.head? != some '@'

theorem isInside_iff : isInside l = true ↔ l ≠ [] ∧ l.head? ≠ some '@' := by
  simp [isInside, List.isEmpty_eq_false_iff]

theorem firstParagraph_nil_cons (docs : List (List Char)) :
    firstParagraph ([] :: docs) = firstParagraph docs := rfl

theorem firstParagraph_cons (hne : l ≠ []) (docs : List (List Char)) :
    firstParagraph (l :: docs) = (l :: docs).takeWhile isInside := by
  have hfirst : ¬l.isEmpty = true := by simpa using hne
  rw [firstParagraph, List.dropWhile_cons_of_neg hfirst]
  rfl

theorem Ends.isInside_eq {before : List (List Char)} (h : Ends before l) : isInside l = false := by
  rcases h with htag | ⟨rfl, _⟩
  · simp [isInside, htag]
  · rfl

/-- **What follows the end** of the first paragraph does not count. -/
theorem firstParagraph_stop {before : List (List Char)} (h : Ends before l) (rest : List (List Char)) :
    firstParagraph (before ++ l :: rest) = firstParagraph before := by
  have hstop : (l :: rest).takeWhile isInside = [] := by
    rw [List.takeWhile_cons_of_neg (by simp [h.isInside_eq])]
  induction before with
  | nil =>
    obtain htag | ⟨_, _, hmem, _⟩ := h
    · have hne : l ≠ [] := by
        rintro rfl
        nomatch htag
      rw [List.nil_append, firstParagraph_cons hne, hstop]
      rfl
    · nomatch hmem
  | cons t before ih =>
    by_cases ht : t = []
    · subst ht
      have hbefore : Ends before l := h.imp_right fun ⟨hl, u, hu, hne⟩ =>
        ⟨hl, u, (List.mem_cons.mp hu).resolve_left hne, hne⟩
      rw [List.cons_append, firstParagraph_nil_cons, firstParagraph_nil_cons, ih hbefore]
    · rw [List.cons_append, firstParagraph_cons ht, firstParagraph_cons ht, ← List.cons_append,
        List.takeWhile_append, hstop, List.append_nil]
      split
      · rename_i hlength
        exact ((List.takeWhile_prefix isInside).eq_of_length hlength).symm
      · rfl

/-- The first paragraph is one of the lines as the definition says, and no other list is. -/
theorem Paragraph.eq {docs p : List (List Char)} (h : Paragraph docs p) : firstParagraph docs = p := by
  obtain ⟨htext, k, rest, rfl, hrest⟩ := h
  have hown : firstParagraph (List.replicate k [] ++ p) = p := by
    induction k with
    | zero =>
      cases p with
      | nil => rfl
      | cons t p =>
        rw [List.replicate_zero, List.nil_append, firstParagraph_cons (htext t List.mem_cons_self).1,
          List.takeWhile_eq_self_iff]
        exact fun l hl => isInside_iff.mpr (htext l hl)
    | succ k ih => rw [List.replicate_succ, List.cons_append, firstParagraph_nil_cons, ih]
  cases rest with
  | nil => rw [List.append_nil, hown]
  | cons l rest =>
    have hends : Ends (List.replicate k [] ++ p) l :=
      (hrest l rfl).imp_right fun ⟨hl, u, hu, hne⟩ => ⟨hl, u, List.mem_append_right _ hu, hne⟩
    rw [← List.append_assoc, firstParagraph_stop hends, hown]

theorem paragraph_firstParagraph (docs : List (List Char)) : Paragraph docs (firstParagraph docs) := by
  have htext : ∀ l ∈ firstParagraph docs, l ≠ [] ∧ l.head? ≠ some '@' :=
    fun l hl => isInside_iff.mp (List.mem_takeWhile_imp hl)
  have hsplit : docs.dropWhile (·.isEmpty) =
      firstParagraph docs ++ (docs.dropWhile (·.isEmpty)).dropWhile isInside :=
    List.takeWhile_append_dropWhile.symm
  have hblank : docs.takeWhile (·.isEmpty) = List.replicate (docs.takeWhile (·.isEmpty)).length [] :=
    List.eq_replicate_length.mpr fun l hl => List.isEmpty_iff.mp (List.mem_takeWhile_imp hl)
  refine ⟨htext, (docs.takeWhile (·.isEmpty)).length, (docs.dropWhile (·.isEmpty)).dropWhile isInside, ?_,
    fun l hl => ?_⟩
  · rw [← hblank, ← hsplit, List.takeWhile_append_dropWhile]
  · have hstop := List.head?_dropWhile_not isInside (docs.dropWhile (·.isEmpty))
    rw [Option.mem_def.mp hl] at hstop
    replace hstop : isInside l = false := hstop
    by_cases hne : l = []
    · refine Or.inr ⟨hne, ?_⟩
      cases hp : firstParagraph docs with
      | nil =>
        -- the lines would start with a blank one after all leading ones are dropped
        rw [hp, List.nil_append] at hsplit
        have hfirst := List.head?_dropWhile_not (·.isEmpty) docs
        rw [hsplit, Option.mem_def.mp hl, hne] at hfirst
        simp at hfirst
      | cons t p => exact ⟨t, List.mem_cons_self, (htext t (hp ▸ List.mem_cons_self)).1⟩
    · by_contra htag
      simp [isInside_iff.mpr ⟨hne, fun h => htag (Or.inl h)⟩] at hstop

/-! ## The summary -/

/-- The summary of some lines: their first paragraph on one line, if it has any. -/
inductive Summary (docs : List (List Char)) : Option String → Prop
  | none (h : Paragraph docs []) : Summary docs none
  | some {p : List (List Char)} (h : Paragraph docs p) (hne : p ≠ []) :
      Summary docs (some (String.ofList (List.intercalate [' '] p)))

/-- A paragraph on one line. -/
def oneLine? : List (List Char) → Option String
  | [] => none
  | t :: p => some (String.ofList (List.intercalate [' '] (t :: p)))

theorem summary_iff {docs : List (List Char)} {answer : Option String} :
    oneLine? (firstParagraph docs) = answer ↔ Summary docs answer := by
  constructor
  · rintro rfl
    have hp := paragraph_firstParagraph docs
    cases hfirst : firstParagraph docs with
    | nil => exact .none (hfirst ▸ hp)
    | cons t p => exact .some (hfirst ▸ hp) (by simp)
  · intro h
    cases h with
    | none h =>
      rw [h.eq]
      rfl
    | @some p h hne =>
      obtain ⟨t, p, rfl⟩ := List.exists_cons_of_ne_nil hne
      rw [h.eq]
      rfl

theorem Written.summary?_eq {docs : List (List Char)} {comment : String}
    (h : Written docs comment.toList) (hdocs : ∀ t ∈ docs, DocLine t) :
    summary? comment = oneLine? (firstParagraph docs) := by
  have hsummary : summary? comment =
      oneLine? (firstParagraph (((Text.lines comment.toList).filterMap stripMarks?).map trim)) := by
    rw [summary?]
    cases firstParagraph (((Text.lines comment.toList).filterMap stripMarks?).map trim) <;> rfl
  rw [hsummary]
  rcases h.lines hdocs with hlines | hlines
  · rw [hlines]
  · rw [hlines, firstParagraph_nil_cons]

/-- **The summary does not depend on the layout.**  It is the first paragraph of the lines, and comments
whose lines are the same up to the end of that have the same summary, whatever follows. -/
theorem summary_layout {docs : List (List Char)} {comment : String} (hdocs : ∀ t ∈ docs, DocLine t)
    (h : Written docs comment.toList) :
    (∀ answer, summary? comment = answer ↔ Summary docs answer) ∧
      ∀ before l rest rest' (other : String), docs = before ++ l :: rest → Ends before l →
        (∀ t ∈ rest', DocLine t) → Written (before ++ l :: rest') other.toList →
        summary? other = summary? comment := by
  constructor
  · intro answer
    rw [h.summary?_eq hdocs, summary_iff]
  · rintro before l rest rest' other rfl hends hrest hother
    have hdocs' : ∀ t ∈ before ++ l :: rest', DocLine t := by
      intro t ht
      rcases List.mem_append.mp ht with ht | ht
      · exact hdocs t (List.mem_append_left _ ht)
      · rcases List.mem_cons.mp ht with rfl | ht
        · exact hdocs t (List.mem_append_right _ List.mem_cons_self)
        · exact hrest t ht
    rw [h.summary?_eq hdocs, hother.summary?_eq hdocs', firstParagraph_stop hends,
      firstParagraph_stop hends]

/-- Two lines of a paragraph, which themselves hold marks of comments. -/
def starred : List (List Char) := ["Adds /* it.".toList, "* @ star /".toList]

/-- A layout with mixed line ends, that starts on the line of the opener and is closed on its last line. -/
def narrowText : String := "/** Adds /* it.\r\n\t*  * @ star / \n   *\r\n\u00A0*\tMore. */"

/-- A layout with the marks on lines of their own, and another end. -/
def wideText : String := "/**\n * Adds /* it.\n * * @ star /\n * \n * @see x\n */\n"

theorem summary_layout_starred :
    (∀ t ∈ starred ++ [] :: ["More.".toList], DocLine t) ∧
      Written (starred ++ [] :: ["More.".toList]) narrowText.toList ∧
      Written (starred ++ [] :: ["@see x".toList]) wideText.toList ∧
      summary? narrowText = some "Adds /* it. * @ star /" ∧ summary? wideText = summary? narrowText := by
  have hdocs : ∀ t ∈ starred ++ [] :: ["More.".toList], DocLine t := by decide
  have htab : Blanks ['\t'] := by decide
  have hspace : Blanks [' '] := by decide
  have hnone : Blanks [] := Text.blanks_nil
  have hnarrow : Written (starred ++ [] :: ["More.".toList]) narrowText.toList := by
    refine ⟨.beside (a := []) hnone (.text hspace (by simp) (by decide) hnone)
      (.cons htab (.text (b := [' ', ' ']) (by decide) (by simp) (by decide) hspace)
        (.cons (a := [' ', ' ', ' ']) (by decide) (.blank hnone)
          (.last (a := ['\u00A0']) (by decide)
            (.closed htab (by simp) (by decide) hspace (by simp) hnone)))), ?_⟩
    exact .cons (Or.inr rfl) (.cons (Or.inl rfl) (.cons (Or.inr rfl) (.last (by decide))))
  have hwide : Written (starred ++ [] :: ["@see x".toList]) wideText.toList := by
    refine ⟨.below (a := []) hnone hnone
      (.cons hspace (.text hspace (by simp) (by decide) hnone)
        (.cons hspace (.text hspace (by simp) (by decide) hnone)
          (.cons hspace (.blank hspace)
            (.cons hspace (.text hspace (by simp) (by decide) hnone) (.closer hspace hnone))))), ?_⟩
    exact .cons (Or.inl rfl) (.cons (Or.inl rfl) (.cons (Or.inl rfl) (.cons (Or.inl rfl)
      (.cons (Or.inl rfl) (.cons (Or.inl rfl) .nil)))))
  have hends : Ends starred [] := Or.inr ⟨rfl, _, List.mem_cons_self, by decide⟩
  have hparagraph : Paragraph (starred ++ [] :: ["More.".toList]) starred :=
    ⟨by decide, 0, [] :: ["More.".toList], rfl, fun l hl => Option.some.inj hl ▸ hends⟩
  obtain ⟨hsummary, hrest⟩ := summary_layout hdocs hnarrow
  exact ⟨hdocs, hnarrow, hwide, (hsummary _).mpr (.some hparagraph (by decide)),
    hrest starred [] _ _ wideText rfl hends (by decide) hwide⟩

end DocComment

end SiteAssist
