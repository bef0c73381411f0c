import SiteAssist.Text.CharTable

/-!
# Blanks, letters and words

The character classes the readers ask for. `isBlank` is the Unicode property White_Space, which
has twenty-five members. `isAlphanumeric` is a letter or a number of any script, `isName` one of
those or an underscore, and `isWord` the word character of regular expressions, which also admits
combining marks, the other connectors and the joiners.
-/

namespace SiteAssist.Text

/-- The character lies in one of the runs of a table. -/
def inRuns (runs : List (Nat × Nat)) (c : Char) : Bool :=
  runs.any fun (lo, hi) => lo ≤ c.toNat && c.toNat ≤ hi

/-- White space of any script. -/
def isBlank (c : Char) : Bool :=
  let n := c.toNat
  (0x9 ≤ n && n ≤ 0xD) || n == 0x20 || n == 0x85 || n == 0xA0 || n == 0x1680
    || (0x2000 ≤ n && n ≤ 0x200A) || n == 0x2028 || n == 0x2029 || n == 0x202F || n == 0x205F
    || n == 0x3000

/-- A letter or number of any script. -/
def isAlphanumeric (c : Char) : Bool :=
  if c.toNat < 0x80 then c.isAlphanum else inRuns alphanumericRuns c

/-- A character of a name: a letter, a number or an underscore. -/
def isName (c : Char) : Bool := c == '_' || isAlphanumeric c

/-- A word character of regular expressions. -/
def isWord (c : Char) : Bool :=
  if c.toNat < 0x80 then c == '_' || c.isAlphanum else inRuns wordRuns c

/-- The text without leading blanks. -/
def trimStart (s : List Char) : List Char := s.dropWhile isBlank

/-- The text without trailing blanks. -/
def trimEnd (s : List Char) : List Char := (s.reverse.dropWhile isBlank).reverse

/-- The text without surrounding blanks. -/
def trim (s : List Char) : List Char := trimEnd (trimStart s)

/-- The value of a hexadecimal digit. -/
def hexValue? (c : Char) : Option Nat :=
  if '0' ≤ c ∧ c ≤ '9' then some (c.toNat - 48)
  else if 'a' ≤ c ∧ c ≤ 'f' then some (c.toNat - 87)
  else if 'A' ≤ c ∧ c ≤ 'F' then some (c.toNat - 55)
  else none

/-- The number written by decimal digits, of which there is at least one. -/
def digitsValue? : List Char → Option Nat
  | [] => none
  | cs => cs.foldl (fun acc c => acc.bind fun n =>
      if c.isDigit then some (10 * n + (c.toNat - 48)) else none) (some 0)

/-- An unsigned decimal numeral below a bound: digits, with or without a plus sign before
them. -/
def boundedNat? (bound : Nat) (s : List Char) : Option Nat :=
  let digits := match s with
    | '+' :: rest => rest
    | _ => s
  (digitsValue? digits).filter (· < bound)

/-- The lower-case hexadecimal digits of a number. -/
def hexDigits (n : Nat) : List Char := Nat.toDigits 16 n

/-- One character of a text shown between double quotes: quotes and backslashes are escaped,
line feeds and their like have letters, and what has no visible form is spelt by number. -/
def showChar (c : Char) : List Char :=
  match c with
  | '"' => ['\\', '"']
  | '\\' => ['\\', '\\']
  | '\n' => ['\\', 'n']
  | '\r' => ['\\', 'r']
  | '\t' => ['\\', 't']
  | '\x00' => ['\\', '0']
  | c =>
    if c.toNat < 0x20 || c.toNat == 0x7F || (c.toNat ≥ 0x80 && inRuns escapedRuns c) then
      ['\\', 'u', '\x7b'] ++ hexDigits c.toNat ++ ['\x7d']
    else [c]

/-- A text shown between double quotes. -/
def showQuoted (s : List Char) : List Char := '"' :: s.flatMap showChar ++ ['"']

end SiteAssist.Text
