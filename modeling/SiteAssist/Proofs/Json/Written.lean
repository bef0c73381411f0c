import SiteAssist.Proofs.Uri.Encoding

/-!
# JSON as it is written

Which texts are strings, numbers, lists and records is said here without a reader: a text is taken apart
into what it is put together from.  Blanks stand around values, keys and marks; between the marks that
open and close a list or an object stand entries, each after the first behind a comma (`Entries`).

* `StringText`, `ListText`, `RecordText`: the texts of a string, of a list, and of a record, which is an
  object with the known members among others, or an array of the fields in order.
* `ValueText`: a value that is **passed over**.  Its numbers may be of any size, its nesting of any depth,
  and its strings may hold surrogates without a partner.
-/

namespace SiteAssist.Json

/-- Blanks, any number of them. -/
def Blank (s : List Char) : Prop := ∀ c ∈ s, c ∈ [' ', '\n', '\t', '\r']

/-! ## Strings -/

/-- The letters that stand after a backslash for a character. -/
def letters : List (Char × Char) :=
  [('"', '"'), ('\\', '\\'), ('/', '/'), ('b', '\x08'), ('f', '\x0c'), ('n', '\n'), ('r', '\r'),
    ('t', '\t')]

/-- A character that may stand for itself in a string. -/
def Plain (c : Char) : Prop := c ≠ '"' ∧ c ≠ '\\' ∧ 0x20 ≤ c.toNat

/-- Four hexadecimal digits of a number, the highest first. -/
def FourHex (n : Nat) (s : List Char) : Prop :=
  ∃ i j k l a b c d, Uri.IsHexDigit i a ∧ Uri.IsHexDigit j b ∧ Uri.IsHexDigit k c ∧
    Uri.IsHexDigit l d ∧ n = ((i * 16 + j) * 16 + k) * 16 + l ∧ s = [a, b, c, d]

/-- A character by its number, or by those of the two surrogates that it is split into.  The first
backslash and its `u` stand before the text. -/
inductive Numbered (c : Char) : List Char → Prop
  | one {s : List Char} (digits : FourHex c.toNat s) : Numbered c s
  | pair {high low : Nat} {s t : List Char} (hs : FourHex high s) (ht : FourHex low t)
      (hhigh : 0xD800 ≤ high ∧ high ≤ 0xDBFF) (hlow : 0xDC00 ≤ low ∧ low ≤ 0xDFFF)
      (hc : c.toNat = 0x10000 + (high - 0xD800) * 0x400 + (low - 0xDC00)) :
      Numbered c (s ++ '\\' :: 'u' :: t)

/-- A text between quotes spells characters. -/
inductive Spells : List Char → List Char → Prop
  | nil : Spells [] []
  | plain {c : Char} {cs s : List Char} (hc : Plain c) (hs : Spells cs s) : Spells (c :: cs) (c :: s)
  | letter {e c : Char} {cs s : List Char} (he : (e, c) ∈ letters) (hs : Spells cs s) :
      Spells (c :: cs) ('\\' :: e :: s)
  | number {c : Char} {cs t s : List Char} (ht : Numbered c t) (hs : Spells cs s) :
      Spells (c :: cs) ('\\' :: 'u' :: (t ++ s))

/-- A text between quotes that is passed over: any number may be written in it. -/
inductive Loose : List Char → Prop
  | nil : Loose []
  | plain {c : Char} {s : List Char} (hc : Plain c) (hs : Loose s) : Loose (c :: s)
  | letter {e c : Char} {s : List Char} (he : (e, c) ∈ letters) (hs : Loose s) : Loose ('\\' :: e :: s)
  | number {n : Nat} {t s : List Char} (ht : FourHex n t) (hs : Loose s) :
      Loose ('\\' :: 'u' :: (t ++ s))

/-- The text of a string. -/
def StringText (value : String) (s : List Char) : Prop :=
  ∃ body, Spells value.toList body ∧ s = '"' :: (body ++ ['"'])

/-! ## Numbers -/

/-- Digits, at least one. -/
def Digits (s : List Char) : Prop := s ≠ [] ∧ ∀ c ∈ s, c.isDigit = true

/-- The whole part of a number: digits without a leading zero, or a zero. -/
def WholePart (s : List Char) : Prop := s = ['0'] ∨ Digits s ∧ s.head? ≠ some '0'

/-- The part of a number behind the point, if there is one. -/
def FractionPart (s : List Char) : Prop := s = [] ∨ ∃ ds, Digits ds ∧ s = '.' :: ds

/-- The exponent of a number, if there is one. -/
def ExponentPart (s : List Char) : Prop :=
  s = [] ∨ ∃ e ∈ ['e', 'E'], ∃ sign ∈ [[], ['+'], ['-']], ∃ ds, Digits ds ∧ s = e :: (sign ++ ds)

/-- The text of a number. -/
def NumberText (s : List Char) : Prop :=
  ∃ sign ∈ [[], ['-']], ∃ whole fraction exponent, WholePart whole ∧ FractionPart fraction ∧
    ExponentPart exponent ∧ s = sign ++ (whole ++ (fraction ++ exponent))

/-! ## Lists and objects -/

/-- What stands before an entry: blanks before the first one, and a comma before each other. -/
inductive Lead : Bool → List Char → Prop
  | first {u : List Char} (hu : Blank u) : Lead true u
  | comma {u v : List Char} (hu : Blank u) (hv : Blank v) : Lead false (u ++ ',' :: v)

/-- Entries up to and with the closing mark.  Each is the text of one member of the list; the flag
says whether they are all there are, or the ones after some other. -/
inductive Entries {α : Type} (close : Char) (Entry : α → List Char → Prop) :
    Bool → List α → List Char → Prop
  | done {first : Bool} {u : List Char} (hu : Blank u) : Entries close Entry first [] (u ++ [close])
  | entry {first : Bool} {a : α} {as : List α} {lead t s : List Char} (hlead : Lead first lead)
      (ht : Entry a t) (hs : Entries close Entry false as s) :
      Entries close Entry first (a :: as) (lead ++ (t ++ s))

/-- A member of an object: a key between quotes, a colon and a value. -/
inductive Member (Key Value : List Char → Prop) : List Char → Prop
  | of {key u v t : List Char} (hkey : Key key) (hu : Blank u) (hv : Blank v) (ht : Value t) :
      Member Key Value ('"' :: (key ++ '"' :: (u ++ ':' :: (v ++ t))))

/-- A value that is passed over. -/
inductive ValueText : List Char → Prop
  | null : ValueText ['n', 'u', 'l', 'l']
  | true : ValueText ['t', 'r', 'u', 'e']
  | false : ValueText ['f', 'a', 'l', 's', 'e']
  | number {s : List Char} (hs : NumberText s) : ValueText s
  | string {s : List Char} (hs : Loose s) : ValueText ('"' :: (s ++ ['"']))
  | array {items : List Unit} {s : List Char} (hs : Entries ']' (fun _ => ValueText) true items s) :
      ValueText ('[' :: s)
  | object {members : List Unit} {s : List Char}
      (hs : Entries '\x7d' (fun _ => Member Loose ValueText) true members s) : ValueText ('\x7b' :: s)

section Shapes

variable {α : Type}

/-- The text of a list of what stands in texts of their own. -/
def ListText (Item : α → List Char → Prop) (as : List α) (s : List Char) : Prop :=
  ∃ body, Entries ']' Item true as body ∧ s = '[' :: body

/-- A member of a record's object: a field with its value, or a member of another name, of which
nothing is kept. -/
inductive FieldText (names : List String) (Field : String → α → List Char → Prop) :
    Option (String × α) → List Char → Prop
  | known {name : String} {a : α} {s : List Char} (hname : name ∈ names)
      (hs : Member (Spells name.toList) (Field name a) s) : FieldText names Field (some (name, a)) s
  | other {key : String} {s : List Char} (hkey : key ∉ names)
      (hs : Member (Spells key.toList) ValueText s) : FieldText names Field none s

/-- The text of a record in which values are found under some of the names: an object with no field
twice, or an array of the fields' values in order.  The array may end early only where the fields are
optional. -/
inductive RecordText (names : List String) (optional : Bool) (Field : String → α → List Char → Prop)
    (found : List (String × α)) : List Char → Prop
  | object {members : List (Option (String × α))} {s : List Char}
      (hs : Entries '\x7d' (FieldText names Field) true members s)
      (hfound : found = members.reduceOption) (hnodup : (found.map Prod.fst).Nodup) :
      RecordText names optional Field found ('\x7b' :: s)
  | array {s : List Char} (hs : Entries ']' (fun f => Field f.1 f.2) true found s)
      (hnames : found.map Prod.fst <+: names)
      (hall : optional = true ∨ found.map Prod.fst = names) :
      RecordText names optional Field found ('[' :: s)

end Shapes

/-! ## Where texts start and end -/

/-- What follows a value: nothing, a blank, a comma or a closing mark. -/
def Ends (s : List Char) : Prop := ∀ c ∈ s.head?, c ∈ [' ', '\n', '\t', '\r', ',', ']', '\x7d']

/-- A text that starts like a value: with no blank and no closing bracket. -/
def Starts (s : List Char) : Prop := ∃ c t, s = c :: t ∧ c ∉ [' ', '\n', '\t', '\r', ']']

end SiteAssist.Json
