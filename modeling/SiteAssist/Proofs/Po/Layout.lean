import SiteAssist.Po
import SiteAssist.Proofs.Text.Lines

/-!
# The ways of writing a catalog

An entry is written field by field, in the order of context, msgid, plural and the forms of the
translation.  A field is its keyword and a string, which may be cut into segments: the first stands on
the line of the keyword, every other on a line of its own.  Each segment is escaped by itself
(`WrittenChars`).  Blanks may stand around the tokens of a line, and some have to stand between a
keyword and its string.

Between entries, before the first and after the last there may be lines that say nothing (`Idle`), and
a byte order mark may lead the text.

* `Written es text`: the text is **one of the ways of writing** the entries.
* `exists_written`: every list of entries has one.
-/

namespace SiteAssist.Po

open Text (Blanks Ended)

/-! ## Strings -/

/-- What may be written for a character between quotes. -/
inductive WrittenChar : Char → List Char → Prop
  | plain {c : Char} (h : c ∉ ['\\', '"', '\n', '\r']) : WrittenChar c [c]
  | backslash : WrittenChar '\\' ['\\', '\\']
  | quote : WrittenChar '"' ['\\', '"']
  | lineFeed : WrittenChar '\n' ['\\', 'n']
  | carriageReturn : WrittenChar '\r' ['\\', 'r']
  | tab : WrittenChar '\t' ['\\', 't']

/-- What may be written for the characters of a segment. -/
inductive WrittenChars : List Char → List Char → Prop
  | nil : WrittenChars [] []
  | cons {c : Char} {s w v : List Char} (first : WrittenChar c w) (rest : WrittenChars s v) :
      WrittenChars (c :: s) (w ++ v)

/-- A segment in its quotes. -/
inductive Quoted : List Char → List Char → Prop
  | mk {s w : List Char} (h : WrittenChars s w) : Quoted s ('"' :: (w ++ ['"']))

/-- The lines of further segments. -/
inductive Continued : List Char → List (List Char) → Prop
  | nil : Continued [] []
  | cons {a s w b rest : List Char} {ls : List (List Char)} (ha : Blanks a) (hw : Quoted s w)
      (hb : Blanks b) (more : Continued rest ls) : Continued (s ++ rest) ((a ++ (w ++ b)) :: ls)

/-! ## Fields and entries -/

/-- The keywords of a field. -/
inductive Keyword : Field → List Char → Prop
  | context : Keyword .context "msgctxt".toList
  | msgid : Keyword .msgid "msgid".toList
  | plural : Keyword .plural "msgid_plural".toList
  | form (n : Nat) : Keyword (.msgstr n) ("msgstr[".toList ++ Nat.toDigits 10 n ++ [']'])
  | onlyForm : Keyword (.msgstr 0) "msgstr".toList

/-- The lines of a field and its text. -/
inductive WrittenField (f : Field) : String → List (List Char) → Prop
  | mk {keyword a g s w b rest : List Char} {ls : List (List Char)} {text : String}
      (hk : Keyword f keyword) (ha : Blanks a) (hg : Blanks g) (hne : g ≠ [])
      (hw : Quoted s w) (hb : Blanks b) (more : Continued rest ls) (ht : text.toList = s ++ rest) :
      WrittenField f text ((a ++ (keyword ++ g ++ w ++ b)) :: ls)

/-- The lines of a field that may be absent. -/
inductive WrittenField? (f : Field) : Option String → List (List Char) → Prop
  | absent : WrittenField? f none []
  | present {text : String} {ls : List (List Char)} (h : WrittenField f text ls) :
      WrittenField? f (some text) ls

/-- The lines of the forms of a translation, from the form of a number on. -/
inductive WrittenForms : Nat → List String → List (List Char) → Prop
  | nil {n : Nat} : WrittenForms n [] []
  | cons {n : Nat} {text : String} {texts : List String} {ls more : List (List Char)}
      (first : WrittenField (.msgstr n) text ls) (rest : WrittenForms (n + 1) texts more) :
      WrittenForms n (text :: texts) (ls ++ more)

/-- The lines of an entry. -/
inductive WrittenEntry (e : Entry) : List (List Char) → Prop
  | mk {cs ids ps fs : List (List Char)} (context : WrittenField? .context e.context cs)
      (msgid : WrittenField .msgid e.msgid ids) (plural : WrittenField? .plural e.plural ps)
      (forms : WrittenForms 0 e.msgstr fs) : WrittenEntry e (cs ++ (ids ++ (ps ++ fs)))

/-! ## Catalogs -/

/-- A line that says nothing: blank, or a comment. -/
inductive Idle : List Char → Prop
  | blank {b : List Char} (hb : Blanks b) : Idle b
  | comment {a text : List Char} (ha : Blanks a) (ht : '\n' ∉ text) : Idle (a ++ '#' :: text)

/-- The lines of some entries, with idle lines anywhere between them. -/
inductive WrittenLines : List Entry → List (List Char) → Prop
  | nil : WrittenLines [] []
  | idle {es : List Entry} {line : List Char} {ls : List (List Char)} (h : Idle line)
      (rest : WrittenLines es ls) : WrittenLines es (line :: ls)
  | entry {e : Entry} {es : List Entry} {ls more : List (List Char)} (first : WrittenEntry e ls)
      (rest : WrittenLines es more) : WrittenLines (e :: es) (ls ++ more)

/-- What may stand before the first line. -/
def IsLead (lead : List Char) : Prop := lead = [] ∨ lead = ['\uFEFF']

/-- The text is one of the ways of writing the entries. -/
def Written (es : List Entry) (text : String) : Prop :=
  ∃ lead ls body, text.toList = lead ++ body ∧ IsLead lead ∧ WrittenLines es ls ∧ Ended ls body

/-! ## Every list of entries can be written -/

theorem exists_writtenChars (s : List Char) : ∃ w, WrittenChars s w := by
  induction s with
  | nil => exact ⟨[], .nil⟩
  | cons c s ih =>
    obtain ⟨v, hv⟩ := ih
    by_cases h : c ∈ ['\\', '"', '\n', '\r']
    · simp only [List.mem_cons, List.not_mem_nil, or_false] at h
      rcases h with rfl | rfl | rfl | rfl
      · exact ⟨_, .cons .backslash hv⟩
      · exact ⟨_, .cons .quote hv⟩
      · exact ⟨_, .cons .lineFeed hv⟩
      · exact ⟨_, .cons .carriageReturn hv⟩
    · exact ⟨_, .cons (.plain h) hv⟩

theorem exists_keyword (f : Field) : ∃ k, Keyword f k := by
  cases f with
  | context => exact ⟨_, .context⟩
  | msgid => exact ⟨_, .msgid⟩
  | plural => exact ⟨_, .plural⟩
  | msgstr n => exact ⟨_, .form n⟩

theorem exists_writtenField (f : Field) (text : String) : ∃ ls, WrittenField f text ls := by
  obtain ⟨k, hk⟩ := exists_keyword f
  obtain ⟨w, hw⟩ := exists_writtenChars text.toList
  have hnone : Blanks [] := by decide
  have hspace : Blanks [' '] := by decide
  exact ⟨_, .mk hk hnone hspace (by decide) (.mk hw) hnone .nil (List.append_nil _).symm⟩

theorem exists_writtenField? (f : Field) (text : Option String) : ∃ ls, WrittenField? f text ls := by
  cases text with
  | none => exact ⟨[], .absent⟩
  | some text => exact (exists_writtenField f text).imp fun _ => .present

theorem exists_writtenForms (texts : List String) (n : Nat) : ∃ ls, WrittenForms n texts ls := by
  induction texts generalizing n with
  | nil => exact ⟨[], .nil⟩
  | cons text texts ih =>
    obtain ⟨ls, hls⟩ := exists_writtenField (.msgstr n) text
    obtain ⟨more, hmore⟩ := ih (n + 1)
    exact ⟨_, .cons hls hmore⟩

theorem exists_writtenEntry (e : Entry) : ∃ ls, WrittenEntry e ls := by
  obtain ⟨cs, hc⟩ := exists_writtenField? .context e.context
  obtain ⟨ids, hi⟩ := exists_writtenField .msgid e.msgid
  obtain ⟨ps, hp⟩ := exists_writtenField? .plural e.plural
  obtain ⟨fs, hf⟩ := exists_writtenForms e.msgstr 0
  exact ⟨_, .mk hc hi hp hf⟩

theorem exists_writtenLines (es : List Entry) : ∃ ls, WrittenLines es ls := by
  induction es with
  | nil => exact ⟨[], .nil⟩
  | cons e es ih =>
    obtain ⟨ls, hls⟩ := exists_writtenEntry e
    obtain ⟨more, hmore⟩ := ih
    exact ⟨_, .entry hls hmore⟩

theorem exists_ended (ls : List (List Char)) : ∃ text, Ended ls text := by
  induction ls with
  | nil => exact ⟨[], .nil⟩
  | cons line ls ih => exact ih.elim fun text h => ⟨_, .cons (Or.inl rfl) h⟩

/-- **Every list of entries has a writing.** -/
theorem exists_written (es : List Entry) : ∃ text, Written es text := by
  obtain ⟨ls, hls⟩ := exists_writtenLines es
  obtain ⟨body, hbody⟩ := exists_ended ls
  exact ⟨String.ofList body, [], ls, body, String.toList_ofList, Or.inl rfl, hls, hbody⟩

end SiteAssist.Po
