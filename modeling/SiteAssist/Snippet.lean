/-!
# Snippets

A snippet is text with tab stops, a dollar sign with a number. A backslash takes away the meaning of
a backslash, a dollar sign or a closing brace.
-/

namespace SiteAssist.Snippet

/-- A character that means something in a snippet. -/
def isSpecial (c : Char) : Bool := c == '\\' || c == '$' || c == '\x7d'

/-- A text as a snippet that stands for it. -/
def escape : List Char → List Char
  | [] => []
  | c :: cs => if isSpecial c then '\\' :: c :: escape cs else c :: escape cs

end SiteAssist.Snippet
