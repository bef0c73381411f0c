import SiteAssist.Document
import SiteAssist.Path
import SiteAssist.Text.Class

/-!
# Completion requests

A request asks what may be inserted at a place in a file. All that is known of the place is the text
of its line up to it, and the functions here tell from that text what is being written: a
declaration, a variable, an argument of a call, an expression of a template. They look at characters
alone.
-/

namespace SiteAssist

/-- A request: the file, its language and the line up to the place. -/
structure Request where
  path : Path
  language : Language
  linePrefix : String
  line : Nat
  /-- the UTF-16 length of the line up to the place -/
  column : Nat
  deriving Repr, DecidableEq

/-- The request at the end of a line's text. -/
def Request.at (path : Path) (language : Language) (linePrefix : String) (line : Nat) : Request :=
  { path, language, linePrefix, line, column := Text.units linePrefix.toList }

/-- The name of the file, empty if the path has none. -/
def Request.fileName (r : Request) : String := r.path.fileName?.getD ""

namespace LinePrefix

/-- Only the start of a name stands on the line, after `function` or not. -/
def isDeclaration (s : List Char) : Bool :=
  let trimmed := Text.trimStart s
  let word := (Text.stripPrefix? "function ".toList trimmed).getD trimmed
  (Text.trimStart word).all Text.isName

/-- The last occurrence of a character: what stands before and after it. -/
def cutAtLast? (mark : Char) (s : List Char) : Option (List Char × List Char) :=
  (Text.cutAtFirst? (· == mark) s.reverse).map fun (after, before) =>
    (before.reverse, after.reverse)

/-- The start of a variable's name at the end of the line. No word or dollar sign may touch the
variable from the left. -/
def variableStart? (s : List Char) : Option (List Char) :=
  (cutAtLast? '$' s).bind fun (before, name) =>
    let touched := before.getLast?.any fun c => Text.isName c || c == '$'
    if name.all Text.isName ∧ ¬touched then some name else none

/-- The number of characters up to the end of the last occurrence of any needle. -/
def endOfLast? (s : List Char) (needles : List (List Char)) : Option Nat :=
  (needles.filterMap fun needle => Text.endOfLast? needle s).max?

/-- A quotation mark of a string literal. -/
def isQuote (c : Char) : Bool := c == '\'' || c == '"'

/-- The last quotation mark at or after a place, and its UTF-16 column. -/
def openQuote? (s : List Char) (start : Nat) : Option (Char × Nat) :=
  match (s.drop start).reverse.dropWhile (!isQuote ·) with
  | [] => none
  | quote :: before => some (quote, Text.units (s.take start ++ before.reverse))

/-- The marks around a template's expression. -/
def expressionMarks : List Char × List Char := (['\x7b', '\x7b'], ['\x7d', '\x7d'])

/-- A template's expression is open: its mark comes later than that which closes one. -/
def inExpression (s : List Char) : Bool :=
  match Text.endOfLast? expressionMarks.1 s, Text.endOfLast? expressionMarks.2 s with
  | some opened, some closed => closed < opened
  | some _, none => true
  | none, _ => false

end LinePrefix

end SiteAssist
