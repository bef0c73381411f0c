import SiteAssist.Text.Class
import SiteAssist.Text.Basic

/-!
# Summaries of doc comments

The summary of a documentation comment is its first paragraph on one line. The marks of the comment
(the opener, the closer and the star that leads a line) are taken off each line first; the first
paragraph then ends at a blank line or at a line that starts a tag with `@`.
-/

namespace SiteAssist.DocComment

/-- A line without the comment's marks, or nothing for a line that only closes it. -/
def stripMarks? (line : List Char) : Option (List Char) :=
  let line := Text.trim line
  let body : Option (List Char) :=
    match Text.stripPrefix? "/**".toList line with
    | some rest => some (Text.trim rest)
    | none =>
      if (Text.stripPrefix? "*/".toList line).isSome then none
      else match Text.stripPrefix? ['*'] line with
        | some rest => some (Text.trimStart rest)
        | none => some line
  body.map fun line =>
    match Text.stripSuffix? "*/".toList line with
    | some rest => Text.trimEnd rest
    | none => line

/-- The lines of the first paragraph: leading blank lines are skipped, a blank line or a tag
ends it. -/
def firstParagraph (lines : List (List Char)) : List (List Char) :=
  (lines.dropWhile (·.isEmpty)).takeWhile fun line => !line.isEmpty && line.head? != some '@'

/-- The summary of a comment, given with its marks. -/
def summary? (comment : String) : Option String :=
  let lines := (Text.lines comment.toList).filterMap stripMarks?
  match firstParagraph (lines.map Text.trim) with
  | [] => none
  | paragraph => some (String.ofList (List.intercalate [' '] paragraph))

end SiteAssist.DocComment
