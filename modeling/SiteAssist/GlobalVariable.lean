import SiteAssist.DocComment
import SiteAssist.Php.Declaration

/-!
# Global variables

A global variable is documented by a `global` statement at the top of a file. Of the variables that
one statement names only the first counts.
-/

namespace SiteAssist

/-- A global variable, its name with the dollar sign. -/
structure GlobalVariable where
  name : String
  summary : Option String
  deriving Repr, DecidableEq

namespace GlobalVariable

/-- The variable of a declaration. -/
def ofDeclaration? : Php.Declaration → Option GlobalVariable
  | .global doc name => some ⟨name, doc.bind DocComment.summary?⟩
  | _ => none

/-- The global variables of a file. -/
def ofSource (source : String) : List GlobalVariable :=
  (Php.outline source).filterMap ofDeclaration?

end GlobalVariable

end SiteAssist
