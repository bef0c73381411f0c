import SiteAssist.Proofs.Offer.Placeholders

/-!
# What the literal of a snippet denotes

The snippet of a text with placeholders starts with a string literal.  Once it is inserted, the literal is
read by the rules of the language for its quotation mark (`Rules`): which characters a backslash escapes,
and which cannot stand there as they are.

Escaping backslashes and the quotation mark is enough for **every text that holds none of the latter**:
then the literal is complete and denotes the text.  Between double quotes PHP takes a dollar sign with a
name, or a brace with a dollar sign, for a variable, and a script has no literal with a line end in it.
A text that holds these is put in unescaped, and then what stands there is **no literal** (`Misread`,
`literal_denotes`).
-/

namespace SiteAssist.Offer.Translations

open Snippet (Piece ofText filled)

/-! ## Literals -/

/-- How a language reads the string literals of one quotation mark. -/
structure Rules where
  quote : Char
  /-- a backslash stands for the character after it -/
  escapes : Char → Bool
  /-- a character that cannot stand before another as it is -/
  breaks : Char → Char → Bool

namespace Rules

variable {r : Rules}

/-- The value of a literal after its opening mark, and what comes after the closing one. -/
def body? (r : Rules) : List Char → Option (List Char × List Char)
  | [] => none
  | [c] => if c = r.quote then some ([], []) else none
  | c :: d :: s =>
    if c = r.quote then some ([], d :: s)
    else if c = '\\' ∧ r.escapes d = true then (body? r s).map (Prod.map (d :: ·) id)
    else if r.breaks c d = true then none
    else (body? r (d :: s)).map (Prod.map (c :: ·) id)

/-- The value of the literal that a text starts with, and what comes after it. -/
def read? (r : Rules) : List Char → Option (List Char × List Char)
  | [] => none
  | c :: s => if c = r.quote then r.body? s else none

/-- A text in which some character cannot stand as it is. -/
def Broken (r : Rules) (s : List Char) : Prop := ∃ c d, [c, d] <:+: s ∧ r.breaks c d = true

/-- A backslash escapes itself and the mark, and for what comes before them it is the same whether
they are escaped. -/
structure Escaping (r : Rules) : Prop where
  quote_ne : r.quote ≠ '\\'
  escaped : ∀ c, c = '\\' ∨ c = r.quote → r.escapes c = true
  stands : ∀ c, c = '\\' ∨ c = r.quote → ∀ d, r.breaks c d = false
  before : ∀ c, r.breaks c '\\' = r.breaks c r.quote

theorem not_broken_singleton (c : Char) : ¬r.Broken [c] := by
  rintro ⟨a, b, h, _⟩
  have := h.length_le
  simp at this

theorem broken_cons_cons {c d : Char} {s : List Char} :
    r.Broken (c :: d :: s) ↔ r.breaks c d = true ∨ r.Broken (d :: s) := by
  constructor
  · rintro ⟨a, b, h, hb⟩
    rcases List.infix_cons_iff.mp h with h | h
    · obtain ⟨hc, h⟩ := List.cons_prefix_cons.mp h
      obtain ⟨hd, _⟩ := List.cons_prefix_cons.mp h
      exact Or.inl (hc ▸ hd ▸ hb)
    · exact Or.inr ⟨a, b, h, hb⟩
  · rintro (h | ⟨a, b, h, hb⟩)
    · exact ⟨c, d, ⟨[], s, rfl⟩, h⟩
    · exact ⟨a, b, List.infix_cons_iff.mpr (Or.inr h), hb⟩

theorem body?_quote (r : Rules) (t : List Char) : r.body? (r.quote :: t) = some ([], t) := by
  cases t <;> rw [body?, if_pos rfl]

theorem Escaping.body?_escaped (h : r.Escaping) {c : Char} (hc : c = '\\' ∨ c = r.quote)
    (s : List Char) : r.body? ('\\' :: c :: s) = (r.body? s).map (Prod.map (c :: ·) id) := by
  rw [body?, if_neg (Ne.symm h.quote_ne), if_pos ⟨rfl, h.escaped c hc⟩]

theorem body?_plain {c : Char} (hc : ¬(c = '\\' ∨ c = r.quote)) (d : Char) (s : List Char) :
    r.body? (c :: d :: s) =
      if r.breaks c d = true then none else (r.body? (d :: s)).map (Prod.map (c :: ·) id) := by
  obtain ⟨hb, hq⟩ := not_or.mp hc
  rw [body?, if_neg hq, if_neg (by simp [hb])]

/-- What comes next in a literal breaks the same as what comes next in its text. -/
theorem Escaping.exists_next (h : r.Escaping) (s t : List Char) :
    ∃ d u e v, s ++ [r.quote] = d :: u ∧ escapeQuoted r.quote s ++ r.quote :: t = e :: v ∧
      ∀ c, r.breaks c e = r.breaks c d := by
  cases s with
  | nil => exact ⟨_, _, _, _, rfl, rfl, fun _ => rfl⟩
  | cons x s =>
    rw [escapeQuoted]
    split
    · rename_i hx
      refine ⟨_, _, _, _, rfl, rfl, fun c => ?_⟩
      rcases hx with rfl | rfl
      · rfl
      · exact h.before c
    · exact ⟨_, _, _, _, rfl, rfl, fun _ => rfl⟩

/-- Escaping the mark and backslashes is undone by reading, unless the text is broken. -/
theorem Escaping.body?_escapeQuoted (h : r.Escaping) (s t : List Char) :
    (¬r.Broken (s ++ [r.quote]) →
        r.body? (escapeQuoted r.quote s ++ r.quote :: t) = some (s, t)) ∧
      (r.Broken (s ++ [r.quote]) → r.body? (escapeQuoted r.quote s ++ r.quote :: t) = none) := by
  induction s with
  | nil => exact ⟨fun _ => body?_quote r t, fun hb => absurd hb (not_broken_singleton _)⟩
  | cons c s ih =>
    obtain ⟨hread, hnone⟩ := ih
    obtain ⟨d, u, e, v, hd, he, hnext⟩ := h.exists_next s t
    have hbroken : r.Broken (c :: s ++ [r.quote]) ↔
        r.breaks c d = true ∨ r.Broken (s ++ [r.quote]) := by
      rw [List.cons_append, hd, broken_cons_cons]
    rw [hbroken, escapeQuoted]
    by_cases hc : c = '\\' ∨ c = r.quote
    · rw [if_pos hc, List.cons_append, List.cons_append, h.body?_escaped hc, h.stands c hc d]
      constructor
      · intro hb
        rw [hread fun hs => hb (Or.inr hs)]
        rfl
      · rintro (hf | hs)
        · simp at hf
        · rw [hnone hs]
          rfl
    · rw [if_neg hc, List.cons_append, he, body?_plain hc, ← he, hnext]
      constructor
      · intro hb
        obtain ⟨hcd, hs⟩ := not_or.mp hb
        rw [if_neg hcd, hread hs]
        rfl
      · rintro (hcd | hs)
        · rw [if_pos hcd]
        · rw [hnone hs, Option.map_none, ite_self]

end Rules

/-! ## The rules of the languages -/

/-- A character that the name of a variable may start with in PHP. Beyond ASCII all do. -/
def startsVariable (c : Char) : Bool := c.isAlpha || c == '_' || 0x80 ≤ c.toNat

/-- PHP, between single quotes: what is not escaped stands for itself. -/
def phpSingle : Rules where
  quote := '\''
  escapes c := c == '\\' || c == '\''
  breaks _ _ := false

/-- PHP, between double quotes: a dollar sign may start a variable. -/
def phpDouble : Rules where
  quote := '"'
  escapes c := c == '\\' || c == '"' || c == '$'
  breaks c d := c == '$' && startsVariable d || c == '\x7b' && d == '$'

/-- Scripts, between any marks: a literal ends on its line. -/
def script (quote : Char) : Rules where
  quote := quote
  escapes _ := true
  breaks c _ := c == '\n' || c == '\r'

/-- The rules of a language for a quotation mark. -/
def rules (language : Language) (quote : Char) : Rules :=
  if language = .php then if quote = '"' then phpDouble else phpSingle else script quote

/-- A text that the literal of a snippet does not denote: in PHP, between double quotes, one with what
starts a variable, and in a script one with a line end. -/
def Misread (language : Language) (quote : Char) (s : List Char) : Prop :=
  if language = .php then
    quote = '"' ∧ ((∃ c, startsVariable c = true ∧ ['$', c] <:+: s) ∨ ['\x7b', '$'] <:+: s)
  else '\n' ∈ s ∨ '\r' ∈ s

theorem pair_infix_concat {c d q : Char} {s : List Char} (hd : d ≠ q) :
    [c, d] <:+: s ++ [q] ↔ [c, d] <:+: s := by
  rw [List.infix_concat_iff]
  constructor
  · rintro (h | h)
    · obtain ⟨t, ht⟩ := h
      have hlast := congrArg List.getLast? ht
      rw [List.getLast?_append_cons, List.getLast?_concat] at hlast
      exact absurd (by simpa using hlast) hd
    · exact h
  · exact Or.inr

theorem escaping_phpSingle : phpSingle.Escaping where
  quote_ne := by decide
  escaped := by rintro c (rfl | rfl) <;> decide
  stands _ _ _ := rfl
  before _ := rfl

theorem escaping_phpDouble : phpDouble.Escaping where
  quote_ne := by decide
  escaped := by rintro c (rfl | rfl) <;> decide
  stands := by rintro c (rfl | rfl) d <;> rfl
  before c := by
    have hback : startsVariable '\\' = false := by decide
    have hquote : startsVariable '"' = false := by decide
    simp [phpDouble, hback, hquote]

theorem escaping_script {quote : Char} (hq : LinePrefix.isQuote quote = true) :
    (script quote).Escaping where
  quote_ne := (ne_of_isQuote hq).2
  escaped _ _ := rfl
  stands := by
    rintro c (rfl | rfl) d
    · rfl
    · change (c == '\n' || c == '\r') = false
      rw [Bool.or_eq_false_iff, beq_eq_false_iff_ne, beq_eq_false_iff_ne]
      constructor <;> rintro rfl <;> exact absurd hq (by decide)
  before _ := rfl

theorem broken_phpDouble_iff (s : List Char) :
    phpDouble.Broken (s ++ ['"']) ↔
      (∃ c, startsVariable c = true ∧ ['$', c] <:+: s) ∨ ['\x7b', '$'] <:+: s := by
  have hquote : startsVariable '"' = false := by decide
  constructor
  · rintro ⟨c, d, h, hb⟩
    simp only [phpDouble, Bool.or_eq_true, Bool.and_eq_true, beq_iff_eq] at hb
    rcases hb with ⟨rfl, hd⟩ | ⟨rfl, rfl⟩
    · have hne : d ≠ '"' := by
        rintro rfl
        simp [hquote] at hd
      exact Or.inl ⟨d, hd, (pair_infix_concat hne).mp h⟩
    · exact Or.inr ((pair_infix_concat (by decide)).mp h)
  · rintro (⟨c, hc, h⟩ | h)
    · exact ⟨'$', c, List.infix_append_of_infix_left h, by simp [phpDouble, hc]⟩
    · exact ⟨'\x7b', '$', List.infix_append_of_infix_left h, by decide⟩

theorem broken_script_iff (quote : Char) (s : List Char) :
    (script quote).Broken (s ++ [quote]) ↔ '\n' ∈ s ∨ '\r' ∈ s := by
  induction s with
  | nil => simp [Rules.not_broken_singleton]
  | cons c s ih =>
    obtain ⟨d, u, hd⟩ := List.exists_cons_of_ne_nil (show s ++ [quote] ≠ [] by simp)
    rw [List.cons_append, hd, Rules.broken_cons_cons, ← hd, ih]
    simp only [script, Bool.or_eq_true, beq_iff_eq, List.mem_cons, eq_comm (a := c)]
    tauto

/-! ## The literal of a snippet -/

variable {language : Language} {quote : Char} {msgid : String} {ms : List (List Char)}

theorem rules_spec (language : Language) (hq : LinePrefix.isQuote quote = true) :
    (rules language quote).quote = quote ∧ (rules language quote).Escaping ∧
      ∀ s, (rules language quote).Broken (s ++ [quote]) ↔ Misread language quote s := by
  by_cases hl : language = .php
  · by_cases hd : quote = '"'
    · have hrules : rules language quote = phpDouble := by rw [rules, if_pos hl, if_pos hd]
      refine ⟨by rw [hrules, hd]; rfl, hrules ▸ escaping_phpDouble, fun s => ?_⟩
      rw [hrules, Misread, if_pos hl, hd, broken_phpDouble_iff]
      simp
    · have hrules : rules language quote = phpSingle := by rw [rules, if_pos hl, if_neg hd]
      have hs : quote = '\'' := by simpa [LinePrefix.isQuote, hd] using hq
      refine ⟨by rw [hrules, hs]; rfl, hrules ▸ escaping_phpSingle, fun s => ?_⟩
      rw [hrules, Misread, if_pos hl]
      constructor
      · rintro ⟨_, _, _, hb⟩
        exact absurd hb Bool.false_ne_true
      · rintro ⟨h, _⟩
        exact absurd h hd
  · have hrules : rules language quote = script quote := by rw [rules, if_neg hl]
    refine ⟨by rw [hrules]; rfl, hrules ▸ escaping_script hq, fun s => ?_⟩
    rw [hrules, Misread, if_neg hl, broken_script_iff]

/-- What is inserted is the literal and what comes after it, whatever the tab stops are filled with. -/
theorem exists_filled_pieces (language : Language) (quote : Char) (msgid : List Char)
    (fill : Nat → List Char) :
    ∃ rest, filled fill (pieces language quote msgid) =
      quote :: (escapeQuoted quote msgid ++ quote :: (opening language ++ rest)) := by
  refine ⟨filled fill (argumentPieces quote (separator language) 1 (placeholders msgid)) ++
    closing language, ?_⟩
  rw [pieces]
  simp only [Snippet.filled_append, Snippet.filled_ofText]
  simp

/-- **The literal denotes the text**, unless the text holds what the language does not take as it is; then
there is no literal. -/
theorem literal_denotes (hl : language = .php ∨ language = .javaScript)
    (hq : LinePrefix.isQuote quote = true) (hm : Matches msgid.toList ms) (hne : ms ≠ [])
    (fill : Nat → List Char) :
    ∃ text pieces, (completion language quote msgid).insertText = some text ∧
      Snippet.read? text.toList = some pieces ∧
      (¬Misread language quote msgid.toList →
        ∃ rest, (rules language quote).read? (filled fill pieces) =
          some (msgid.toList, opening language ++ rest)) ∧
      (Misread language quote msgid.toList →
        (rules language quote).read? (filled fill pieces) = none) := by
  have hyaml : language ≠ .yaml := by rcases hl with rfl | rfl <;> decide
  obtain ⟨hquote, hescaping, hbroken⟩ := rules_spec language hq
  obtain ⟨rest, hfilled⟩ := exists_filled_pieces language quote msgid.toList fill
  obtain ⟨hread, hnone⟩ := hescaping.body?_escapeQuoted msgid.toList (opening language ++ rest)
  rw [hquote, hbroken] at hread hnone
  have hbody : (rules language quote).read? (filled fill (pieces language quote msgid.toList)) =
      (rules language quote).body?
        (escapeQuoted quote msgid.toList ++ quote :: (opening language ++ rest)) := by
    rw [hfilled, Rules.read?, if_pos hquote.symm]
  rw [completion_eq_withSnippet hyaml hm hne]
  refine ⟨_, pieces language quote msgid.toList, rfl, ?_, ?_, ?_⟩
  · rw [String.toList_ofList]
    exact read?_snippet language hq msgid.toList
  · exact fun h => ⟨rest, hbody.trans (hread h)⟩
  · exact fun h => hbody.trans (hnone h)

/-- Between single quotes a dollar sign is a dollar sign. -/
theorem literal_denotes_singleQuoted :
    ∃ text pieces, (completion .php '\'' "It's $x: @a").insertText = some text ∧
      Snippet.read? text.toList = some pieces ∧
      ∃ rest, (rules .php '\'').read? (filled (fun _ => "$a".toList) pieces) =
        some ("It's $x: @a".toList, opening .php ++ rest) := by
  have hm := matches_placeholderRuns "It's $x: @a".toList
  have hne : placeholderRuns "It's $x: @a".toList [] ≠ [] := by decide +kernel
  have hl : Language.php = .php ∨ Language.php = .javaScript := Or.inl rfl
  have hq : LinePrefix.isQuote '\'' = true := by decide
  obtain ⟨text, pieces, htext, hpieces, hread, _⟩ := literal_denotes hl hq hm hne fun _ => "$a".toList
  exact ⟨text, pieces, htext, hpieces, hread (by simp [Misread])⟩

/-- Between double quotes it is put in unescaped, and **what stands there is no literal**. -/
theorem doubleQuoted_dollar_misread :
    ∃ text pieces, (completion .php '"' "Cost $x @a").insertText = some text ∧
      Snippet.read? text.toList = some pieces ∧
      filled (fun _ => "$a".toList) pieces = "\"Cost $x @a\", [\"@a\" => $a]".toList ∧
      (rules .php '"').read? (filled (fun _ => "$a".toList) pieces) = none := by
  have htext : (completion .php '"' "Cost $x @a").insertText =
      some (String.ofList (snippet .php '"' "Cost $x @a".toList)) := by decide +kernel
  refine ⟨_, pieces .php '"' "Cost $x @a".toList, htext, ?_, by decide +kernel, by decide +kernel⟩
  rw [String.toList_ofList]
  exact read?_snippet .php (by decide) _

end SiteAssist.Offer.Translations
