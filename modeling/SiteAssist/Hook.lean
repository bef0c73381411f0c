import SiteAssist.Completion
import SiteAssist.DocComment
import SiteAssist.Php.Declaration
import SiteAssist.Snippet

/-!
# Hooks

A hook is documented by a function `hook_NAME` that is never called: modules implement it as
`MODULE_NAME`. The completion of a hook is a snippet with the function's head and an empty body, and
`specialised` puts a module's name in place of `hook`.
-/

namespace SiteAssist

/-- A hook as its function declares it. -/
structure Hook where
  name : String
  signature : String
  parameters : List String
  summary : Option String
  documented : Bool
  deriving Repr, DecidableEq

namespace Hook

/-- How the names of hooks start. -/
def lead : String := "hook_"

/-- A parameter whose leading type is unqualified: what stands before its last backslash is
left out. -/
def shortParameter (p : List Char) : List Char :=
  if p.head? ≠ some '\\' then p
  else
    let isPart (c : Char) : Bool := Text.isName c || c == '\\'
    let (qualified, rest) := (p.takeWhile isPart, p.dropWhile isPart)
    (qualified.reverse.takeWhile (· ≠ '\\')).reverse ++ rest

/-- The hook that a declaration is, if it is a function of a hook's name. -/
def ofDeclaration? : Php.Declaration → Option Hook
  | .function doc head =>
    if (Text.stripPrefix? lead.toList head.name.toList).isSome then
      some
        { name := head.name
          signature := head.signature
          parameters := head.parameters.map fun p => String.ofList (shortParameter p.toList)
          summary := doc.bind DocComment.summary?
          documented := doc.isSome }
    else none
  | _ => none

/-- The hooks of a file. -/
def ofSource (source : String) : List Hook := (Php.outline source).filterMap ofDeclaration?

/-- The snippet of a hook: a comment, its head and an empty body with the final tab stop. -/
def snippet (h : Hook) : String :=
  "/**\n * Implements " ++ h.name ++ "().\n */\n"
    ++ String.ofList (Snippet.escape h.signature.toList) ++ " \x7b\n\t$0\n\x7d"

/-- The documentation of a hook: its head as code, and its summary. -/
def documentation (h : Hook) : String :=
  "```php\n<?php\nfunction " ++ h.name ++ "(" ++ ", ".intercalate h.parameters
    ++ ") \x7b\x7d\n```\n" ++ h.summary.getD ""

/-- The completion of a hook. -/
def completion (h : Hook) : Completion :=
  { ({ label := h.name, kind := .function, detail := some ("Implements " ++ h.name) } :
      Completion).withSnippet h.snippet with
    documentation := if h.documented then some h.documentation else none }

/-- A hook's completion for a module. -/
def specialised (item : Completion) (machineName : String) : Completion :=
  item.renamed ("function " ++ lead) ("function " ++ machineName ++ "_")

end Hook

end SiteAssist
