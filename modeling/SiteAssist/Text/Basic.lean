/-!
# Cutting and searching text

Text is handled as a list of characters. This file holds the cuts that every reader of the library
uses: prefixes and suffixes, first and last occurrences, replacing, splitting at a character and
splitting into lines.

Occurrences are reported by the text around them rather than by a number: `cutFirst? needle s`
gives what stands before and after the first occurrence of `needle`, and `endOfLast? needle s` the
number of characters up to the end of the last one. A line ends at a line feed, together with the
carriage return before it, and the text after the last line feed is a line only if it is not empty.
-/

namespace SiteAssist.Text

/-- What remains of a text after a prefix. -/
def stripPrefix? : List Char → List Char → Option (List Char)
  | [], s => some s
  | _ :: _, [] => none
  | p :: ps, c :: cs => if p = c then stripPrefix? ps cs else none

/-- What remains of a text before a suffix. -/
def stripSuffix? (tail s : List Char) : Option (List Char) :=
  (stripPrefix? tail.reverse s.reverse).map List.reverse

/-- What stands before and after the first occurrence of `needle`. -/
def cutFirst? (needle : List Char) : List Char → Option (List Char × List Char)
  | [] => if needle = [] then some ([], []) else none
  | c :: cs =>
    match stripPrefix? needle (c :: cs) with
    | some after => some ([], after)
    | none => (cutFirst? needle cs).map fun (before, after) => (c :: before, after)

/-- A text occurs in another. -/
def contains (needle s : List Char) : Bool := (cutFirst? needle s).isSome

/-- The number of characters up to the end of the last occurrence of `needle`. -/
def endOfLast? (needle : List Char) : List Char → Option Nat
  | [] => if needle = [] then some 0 else none
  | c :: cs =>
    match endOfLast? needle cs with
    | some n => some (n + 1)
    | none => if (stripPrefix? needle (c :: cs)).isSome then some needle.length else none

/-- Only the first occurrence is replaced. An empty `search` occurs at the start. -/
def replaceFirst (search replacement s : List Char) : List Char :=
  match cutFirst? search s with
  | some (before, after) => before ++ replacement ++ after
  | none => s

/-- The part before and after the first character of a kind, that character left out. -/
def cutAtFirst? (p : Char → Bool) : List Char → Option (List Char × List Char)
  | [] => none
  | c :: cs =>
    if p c then some ([], cs)
    else (cutAtFirst? p cs).map fun (before, after) => (c :: before, after)

/-- A line without the carriage return that ends it. -/
def dropCarriageReturn (line : List Char) : List Char :=
  if line.getLast? = some '\r' then line.dropLast else line

/-- The lines from a list of pieces between line feeds: each but the last was ended by a line
feed, and the last is a line if anything stands in it. -/
def linesOfPieces : List (List Char) → List (List Char)
  | [] => []
  | [last] => if last.isEmpty then [] else [last]
  | piece :: pieces => dropCarriageReturn piece :: linesOfPieces pieces

/-- The lines of a text. -/
def lines (s : List Char) : List (List Char) := linesOfPieces (s.splitOn '\n')

/-- A text without a leading byte order mark. -/
def dropByteOrderMark : List Char → List Char
  | '\uFEFF' :: cs => cs
  | cs => cs

/-- Two texts in the order of their code points, which is also the order of their UTF-8 bytes.
-/
def ordered : List Char → List Char → Bool
  | [], _ => true
  | _ :: _, [] => false
  | a :: as, b :: bs => if a = b then ordered as bs else a.toNat < b.toNat

/-- The number of UTF-16 code units of a character: beyond the basic plane there are two. -/
def unitWidth (c : Char) : Nat := if c.toNat < 0x10000 then 1 else 2

/-- The length of a text in UTF-16 code units. -/
def units : List Char → Nat
  | [] => 0
  | c :: cs => unitWidth c + units cs

/-- The length of a text in UTF-8 bytes. -/
def byteLength : List Char → Nat
  | [] => 0
  | c :: cs => c.utf8Size + byteLength cs

/-- The number of characters whose UTF-8 form takes exactly that many bytes of the text, if the
bytes end at a character. -/
def charCount? : Nat → List Char → Option Nat
  | 0, _ => some 0
  | _ + 1, [] => none
  | n + 1, c :: cs =>
    if c.utf8Size ≤ n + 1 then (charCount? (n + 1 - c.utf8Size) cs).map (· + 1) else none
  termination_by _ s => s.length

end SiteAssist.Text
