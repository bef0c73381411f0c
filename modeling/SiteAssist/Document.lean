import SiteAssist.Text.Basic
import SiteAssist.Report.Diagnostic

/-!
# Open documents

An open document is a text with a language. Clients speak of it by positions: a line, counted from
zero, and a column in UTF-16 code units. A line ends at a line feed, a carriage return, the two
together, or one of five other breaks (vertical tab, form feed, next line, line separator,
paragraph separator), so that the lines of a text, breaks included, make up the text again.

A position is brought to a place in the text by `offset`: a column past the end of its line means
the end, before a carriage return or line feed but after any other break; a column inside a
surrogate pair means the start of that character; a line past the last means the end of the text.
An edit replaces what lies between two positions; if they come the wrong way round it inserts at the
first.
-/

namespace SiteAssist

/-- The language of a document. -/
inductive Language where
  | php
  | javaScript
  | yaml
  | twig
  | other
  deriving Repr, DecidableEq

/-- The language of a client's language id. -/
def Language.ofId (id : String) : Language :=
  if id = "php" then .php
  else if id = "javascript" ∨ id = "javascriptreact" then .javaScript
  else if id = "yaml" then .yaml
  else if id = "twig" ∨ id = "html.twig" then .twig
  else .other

/-- The name of a language. -/
def Language.name : Language → String
  | .php => "Php"
  | .javaScript => "JavaScript"
  | .yaml => "Yaml"
  | .twig => "Twig"
  | .other => "Other"

/-- A place in a document: line and UTF-16 column. -/
structure Position where
  line : Nat
  column : Nat
  deriving Repr, DecidableEq

namespace Document

/-- A character that ends a line on its own. -/
def isBreak (c : Char) : Bool :=
  c == '\n' || c == '\r' || c == '\x0b' || c == '\x0c' || c == '\u0085' || c == '\u2028'
    || c == '\u2029'

/-- A break that is not part of its line's content. -/
def isReturn (c : Char) : Bool := c == '\n' || c == '\r'

/-- The lines of a text, breaks included. The last line has no break and may be empty. -/
def splitLines : List Char → List (List Char)
  | [] => [[]]
  | '\r' :: '\n' :: cs => ['\r', '\n'] :: splitLines cs
  | c :: cs =>
    if isBreak c then [c] :: splitLines cs
    else match splitLines cs with
      | [] => [[c]]
      | line :: lines => (c :: line) :: lines

/-- A line without the returns and feeds that end it. -/
def content (line : List Char) : List Char := (line.reverse.dropWhile isReturn).reverse

/-- The number of characters in the first `column` UTF-16 units of a text; a pair that is cut
does not count. -/
def charsInUnits : Nat → List Char → Nat
  | _, [] => 0
  | column, c :: cs =>
    if Text.unitWidth c ≤ column then charsInUnits (column - Text.unitWidth c) cs + 1 else 0

/-- The characters before a column of a line. -/
def before (line : List Char) (column : Nat) : List Char :=
  (content line).take (charsInUnits column (content line))

/-- The number of characters before a position. -/
def offset (text : List Char) (p : Position) : Nat :=
  let lines := splitLines text
  match lines[p.line]? with
  | none => text.length
  | some line => (lines.take p.line).flatten.length + (before line p.column).length

/-- The text with what lies between two positions replaced. -/
def edit (text : List Char) (start stop : Position) (new : List Char) : List Char :=
  let i := offset text start
  let j := max i (offset text stop)
  text.take i ++ new ++ text.drop j

/-- The text of a line before a column, if there is such a line. -/
def linePrefix? (text : List Char) (p : Position) : Option (List Char) :=
  (splitLines text)[p.line]?.map (before · p.column)

end Document

/-- An open document. -/
structure Document where
  text : List Char
  language : Language
  deriving Repr, DecidableEq

namespace Document

/-- A document as it is opened. -/
def opened (text languageId : String) : Document := ⟨text.toList, .ofId languageId⟩

/-- The document with all its text replaced. -/
def replaced (d : Document) (text : String) : Document := { d with text := text.toList }

/-- The document after an edit. -/
def edited (d : Document) (start stop : Position) (new : String) : Document :=
  { d with text := edit d.text start stop new.toList }

/-- What stands on a line before the cursor. -/
def linePrefixAt? (d : Document) (p : Position) : Option String :=
  (linePrefix? d.text p).map String.ofList

end Document

end SiteAssist
