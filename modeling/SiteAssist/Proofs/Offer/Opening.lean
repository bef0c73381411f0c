import SiteAssist.Proofs.Document.Place
import SiteAssist.Proofs.Offer.Texts

/-!
# The quotation mark that opened a literal

A text is to replace the literal begun on the line, and to be written with its quotation mark.  The mark is
looked for from the end of the line: it is **the last one after the call site**
(`LinePrefix.exists_openQuote?`).  Reading forwards, a literal is opened by the first mark and goes on until
that mark comes again unescaped (`LinePrefix.isOpen`).

* `openQuote?_openLiteral`: the mark that opened the literal is found if **no other mark stands in the
  literal**, and only then.  The snippets then replace the literal from its mark on and are written with it.
* `apostrophe_taken`: an apostrophe between double quotes is taken for the mark that opened the literal.
-/

namespace SiteAssist

open Text (units)

namespace LinePrefix

variable {s : List Char} {start : Nat}

/-! ## The last quotation mark -/

/-- A text in which no quotation mark stands. -/
def Unquoted (s : List Char) : Prop := ∀ c ∈ s, isQuote c = false

instance (s : List Char) : Decidable (Unquoted s) := List.decidableBAll _ s

/-- The mark that is found is the last one from a place on. -/
theorem openQuote?_append {front rest : List Char} {quote : Char}
    (hs : s.drop start = front ++ quote :: rest) (hquote : isQuote quote = true)
    (hrest : Unquoted rest) : openQuote? s start = some (quote, units (s.take start ++ front)) := by
  have hskip : ∀ c ∈ rest.reverse, (!isQuote c) = true := fun c hc => by
    rw [hrest c (List.mem_reverse.mp hc), Bool.not_false]
  have hdrop : (s.drop start).reverse.dropWhile (!isQuote ·) = quote :: front.reverse := by
    rw [hs, List.reverse_append, List.reverse_cons, List.append_assoc,
      List.dropWhile_append_of_pos hskip, List.singleton_append,
      List.dropWhile_cons_of_neg (by simp [hquote])]
  rw [openQuote?, hdrop]
  simp only [List.reverse_reverse]

/-- A text has no quotation mark, or a last one. -/
theorem exists_lastQuote (s : List Char) :
    Unquoted s ∨ ∃ front quote rest, s = front ++ quote :: rest ∧ isQuote quote = true ∧
      Unquoted rest := by
  induction s with
  | nil => exact Or.inl (by simp [Unquoted])
  | cons c s ih =>
    rcases ih with hs | ⟨front, quote, rest, rfl, hquote, hrest⟩
    · cases hc : isQuote c with
      | true => exact Or.inr ⟨[], c, s, rfl, hc, hs⟩
      | false => exact Or.inl (List.forall_mem_cons.mpr ⟨hc, hs⟩)
    · exact Or.inr ⟨c :: front, quote, rest, rfl, hquote, hrest⟩

theorem openQuote?_of_unquoted (h : Unquoted (s.drop start)) : openQuote? s start = none := by
  have hdrop : (s.drop start).reverse.dropWhile (!isQuote ·) = [] := by
    rw [List.dropWhile_eq_nil_iff]
    intro c hc
    rw [h c (List.mem_reverse.mp hc), Bool.not_false]
  rw [openQuote?, hdrop]

/-- A mark is found **with what stands before and after it**. -/
theorem exists_openQuote? {quote : Char} {column : Nat} (h : openQuote? s start = some (quote, column)) :
    ∃ front rest, s.drop start = front ++ quote :: rest ∧ isQuote quote = true ∧ Unquoted rest ∧
      column = units (s.take start ++ front) := by
  rcases exists_lastQuote (s.drop start) with hnone | ⟨front, mark, rest, hs, hmark, hrest⟩
  · rw [openQuote?_of_unquoted hnone] at h
    cases h
  · rw [openQuote?_append hs hmark hrest, Option.some.injEq, Prod.mk.injEq] at h
    obtain ⟨rfl, rfl⟩ := h
    exact ⟨front, rest, hs, hmark, hrest, rfl⟩

/-- A literal is still open after a part of its body: no mark of its kind stands there, unless after a
backslash. -/
def isOpen (quote : Char) : List Char → Bool
  | [] => true
  | '\\' :: _ :: s => isOpen quote s
  | c :: s => c != quote && isOpen quote s

/-- A line that ends in an open literal: blanks after the last call site, the mark that opens the
literal, and the body so far. -/
structure OpenLiteral (sites : List (List Char)) (line : List Char) (callEnd : Nat)
    (before : List Char) (quote : Char) (body : List Char) : Prop where
  line_eq : line = before ++ quote :: body
  callEnd_eq : endOfLast? line sites = some callEnd
  callEnd_le : callEnd ≤ before.length
  blank : ∀ c ∈ before.drop callEnd, Text.isBlank c = true
  isQuote : isQuote quote = true
  isOpen : isOpen quote body = true

variable {sites : List (List Char)} {line before body : List Char} {callEnd : Nat} {quote : Char}

theorem OpenLiteral.drop_eq (h : OpenLiteral sites line callEnd before quote body) :
    line.drop callEnd = before.drop callEnd ++ quote :: body := by
  rw [h.line_eq, List.drop_append_of_le_length h.callEnd_le]

theorem OpenLiteral.take_append_drop (h : OpenLiteral sites line callEnd before quote body) :
    line.take callEnd ++ before.drop callEnd = before := by
  rw [h.line_eq, List.take_append_of_le_length h.callEnd_le, List.take_append_drop]

/-- The mark that opened the literal is found if its body has none, and only then. -/
theorem OpenLiteral.openQuote?_iff (h : OpenLiteral sites line callEnd before quote body) :
    openQuote? line callEnd = some (quote, units before) ↔ Unquoted body := by
  constructor
  · intro hfound
    obtain ⟨front, rest, hdrop, _, hrest, hunits⟩ := exists_openQuote? hfound
    have hline : (line.take callEnd ++ front) ++ quote :: rest = before ++ quote :: body := by
      rw [List.append_assoc, ← hdrop, List.take_append_drop, h.line_eq]
    -- of the places on a line only one has a given column
    have hlength : before.length = (line.take callEnd ++ front).length := by
      rw [← Document.charsInUnits_append before (quote :: body), ← hline, hunits,
        Document.charsInUnits_append]
    obtain ⟨_, heq⟩ := List.append_inj hline hlength.symm
    rwa [(List.cons.inj heq).2] at hrest
  · intro hbody
    rw [openQuote?_append h.drop_eq h.isQuote hbody, h.take_append_drop]

end LinePrefix

namespace Offer.Translations

open LinePrefix (openQuote? isQuote OpenLiteral Unquoted)

/-! ## Items for a request -/

variable {known : List Entry} {r : Request} {item : Completion}

/-- An item is the completion of a text of the module, put in place of the literal that was begun. -/
theorem exists_of_mem_offered (h : item ∈ offered known r) :
    ∃ callEnd msgid, LinePrefix.endOfLast? r.linePrefix.toList (callSites r) = some callEnd ∧
      let opened := openQuote? r.linePrefix.toList callEnd
      item = replacing r opened (completion r.language ((opened.map Prod.fst).getD '\'') msgid) := by
  rw [offered] at h
  split at h
  · rename_i moduleRoot callEnd _ hend
    obtain ⟨msgid, _, rfl⟩ := List.mem_map.mp h
    exact ⟨callEnd, msgid, hend, rfl⟩
  · simp at h

/-- What an item inserts is the snippet of its text. -/
theorem insertText_completion {language : Language} {quote : Char} {msgid text : String}
    (h : (completion language quote msgid).insertText = some text) :
    text = String.ofList (snippet language quote msgid.toList) := by
  rw [completion] at h
  split at h
  · simp at h
  · simpa [Completion.withSnippet] using h.symm

theorem insertText_replacing (r : Request) (opened : Option (Char × Nat)) (item : Completion) :
    (replacing r opened item).insertText = item.insertText := by
  unfold replacing
  split <;> rfl

theorem replacing_some {quote : Char} {column : Nat} (h : item.insertText ≠ none) :
    replacing r (some (quote, column)) item =
      { item with
        replaceRange := some ⟨r.line, column, r.line, r.column⟩
        filterText := some (String.ofList (quote :: item.label.toList)) } := by
  obtain ⟨text, htext⟩ := Option.ne_none_iff_exists'.mp h
  unfold replacing
  rw [htext]

/-- A snippet replaces all from the mark that was found, and is written with that mark. -/
theorem snippet_of_opened {callEnd column : Nat} {quote : Char} {text : String}
    (hitem : item ∈ offered known r)
    (hend : LinePrefix.endOfLast? r.linePrefix.toList (callSites r) = some callEnd)
    (hopened : openQuote? r.linePrefix.toList callEnd = some (quote, column))
    (htext : item.insertText = some text) :
    item.replaceRange = some ⟨r.line, column, r.line, r.column⟩ ∧
      item.filterText = some (String.ofList (quote :: item.label.toList)) ∧
      text = String.ofList (snippet r.language quote item.label.toList) := by
  obtain ⟨n, msgid, hn, rfl⟩ := exists_of_mem_offered hitem
  obtain rfl : callEnd = n := Option.some.inj (hend.symm.trans hn)
  rw [insertText_replacing] at htext
  rw [hopened] at htext ⊢
  have hsome := Option.ne_none_iff_exists'.mpr ⟨text, htext⟩
  rw [label_replacing, label_completion, replacing_some hsome, label_completion]
  exact ⟨rfl, rfl, insertText_completion htext⟩

/-- **Which mark is taken for the one that opened the literal**, on a line of PHP.  It is the right one
exactly if no mark stands in the literal; then the snippets replace the literal from its mark up to the
place of the request and are written with that mark.  In any case it is the last mark of the line. -/
theorem openQuote?_openLiteral {path : Path} {line : String} {n callEnd : Nat}
    {before body : List Char} {quote : Char}
    (h : OpenLiteral (callSites (.at path .php line n)) line.toList callEnd before quote body) :
    (openQuote? line.toList callEnd = some (quote, units before) ↔ Unquoted body) ∧
      (Unquoted body → ∀ known, ∀ item ∈ offered known (.at path .php line n),
        ∀ text, item.insertText = some text →
          item.replaceRange = some ⟨n, units before, n, units line.toList⟩ ∧
            text = String.ofList (snippet .php quote item.label.toList)) ∧
      ∀ front mark rest, quote :: body = front ++ mark :: rest → isQuote mark = true →
        Unquoted rest → openQuote? line.toList callEnd = some (mark, units (before ++ front)) := by
  refine ⟨h.openQuote?_iff, ?_, ?_⟩
  · intro hbody known item hitem text htext
    obtain ⟨hrange, _, hsnippet⟩ :=
      snippet_of_opened hitem h.callEnd_eq (h.openQuote?_iff.mpr hbody) htext
    exact ⟨hrange, hsnippet⟩
  · intro front mark rest hbody hmark hrest
    have hdrop : line.toList.drop callEnd = (before.drop callEnd ++ front) ++ mark :: rest := by
      rw [h.drop_eq, hbody, List.append_assoc]
    rw [LinePrefix.openQuote?_append hdrop hmark hrest, ← List.append_assoc, h.take_append_drop]

/-- A file of a custom module. -/
def moduleFile : Path := ⟨"/s/web/modules/custom/a/a.module"⟩

/-- A text of that module, with a placeholder. -/
def greeting : Entry := ⟨⟨"/s/web/modules/custom/a"⟩, "Hello @name"⟩

/-- Two blanks before the literal, and a letter beyond ASCII in it. -/
theorem openQuote?_openLiteral_letter :
    OpenLiteral (callSites (.at moduleFile .php "  t(  \"é" 3)) "  t(  \"é".toList 4 "  t(  ".toList '"'
        ['é'] ∧
      openQuote? "  t(  \"é".toList 4 = some ('"', 6) ∧
      (offered [greeting] (.at moduleFile .php "  t(  \"é" 3)).map (·.insertText) =
        [some "\"Hello @name\", [\"@name\" => $1]"] ∧
      ∀ item ∈ offered [greeting] (.at moduleFile .php "  t(  \"é" 3), ∀ text,
        item.insertText = some text → item.replaceRange = some ⟨3, 6, 3, 8⟩ ∧
          text = String.ofList (snippet .php '"' item.label.toList) := by
  have hopen : OpenLiteral (callSites (.at moduleFile .php "  t(  \"é" 3)) "  t(  \"é".toList 4
      "  t(  ".toList '"' ['é'] := by
    have hblank := List.all_eq_true.mp
      (show ("  t(  ".toList.drop 4).all Text.isBlank = true by decide +kernel)
    exact ⟨by decide +kernel, by decide +kernel, by decide +kernel, hblank, by decide, by decide⟩
  obtain ⟨hfound, hsnippets, _⟩ := openQuote?_openLiteral hopen
  have hbody : Unquoted ['é'] := by decide
  exact ⟨hopen, hfound.mpr hbody, by decide +kernel, hsnippets hbody [greeting]⟩

/-- **An apostrophe between double quotes** is taken for the mark that opened the literal. -/
theorem apostrophe_taken :
    OpenLiteral (callSites (.at moduleFile .php "  t(\"it's" 3)) "  t(\"it's".toList 4 "  t(".toList '"'
        "it's".toList ∧
      openQuote? "  t(\"it's".toList 4 = some ('\'', 7) ∧
      openQuote? "  t(\"it's".toList 4 ≠ some ('"', units "  t(".toList) ∧
      (offered [greeting] (.at moduleFile .php "  t(\"it's" 3)).map
          (fun item => (item.insertText, item.replaceRange)) =
        [(some "'Hello @name', ['@name' => $1]", some ⟨3, 7, 3, 9⟩)] := by
  refine ⟨?_, by decide +kernel, by decide +kernel, by decide +kernel⟩
  have hblank := List.all_eq_true.mp
    (show ("  t(".toList.drop 4).all Text.isBlank = true by decide +kernel)
  exact ⟨by decide +kernel, by decide +kernel, by decide +kernel, hblank, by decide, by decide +kernel⟩

end Offer.Translations

end SiteAssist
