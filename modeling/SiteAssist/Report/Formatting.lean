import SiteAssist.Report.Diagnostic

/-!
# The edit of a formatter

A formatter prints the whole file anew. Its output becomes one edit that replaces the document, from
its start to the end of its last line, unless nothing was printed or nothing changed.
-/

namespace SiteAssist.Report

/-- A replacement of a stretch of a document. -/
structure Replacement where
  span : Span
  newText : String
  deriving Repr, DecidableEq

/-- The last line of a text, which follows its last line feed. -/
def lastLine (text : List Char) : List Char := (text.reverse.takeWhile (· ≠ '\n')).reverse

/-- The edit from a document to a formatter's output. -/
def formatting? (original formatted : String) : Option Replacement :=
  if formatted = "" ∨ original = formatted then none
  else
    let text := original.toList
    some ⟨⟨0, 0, text.count '\n', (lastLine text).length⟩, formatted⟩

end SiteAssist.Report
