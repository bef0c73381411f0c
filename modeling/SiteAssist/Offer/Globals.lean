import SiteAssist.Offer.Basic
import SiteAssist.GlobalVariable

/-!
# Offering global variables

The documented global variables are offered in code where a variable is being written.
-/

namespace SiteAssist.Offer.Globals

/-- The file that documents the globals. -/
def pattern : String := "web/core/globals.api.php"

/-- The variables of one file as completions. -/
def read (_ : Path) (text : String) : Option (List Completion) :=
  some ((GlobalVariable.ofSource text).map fun g =>
    { label := g.name, kind := .variable, detail := some "global variable"
      documentation := g.summary })

/-- A new cache of global variables. -/
def cache : FileCache Completion := newCache pattern read

/-- The variables offered at a request, given those that are known. -/
def offered (root : Path) (known : List Completion) (r : Request) : List Completion :=
  if r.language = .php ∧ r.path.under root
      ∧ (LinePrefix.variableStart? r.linePrefix.toList).isSome then known else []

end SiteAssist.Offer.Globals
