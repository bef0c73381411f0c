import SiteAssist.Cache
import SiteAssist.Completion
import SiteAssist.Request

/-!
# What is offered, and where it comes from

Each kind of symbol that a site declares is offered for completion by a module of its own: which
files declare such symbols (a pattern), how they are read from one file, and at which requests they
are offered. What is read is kept in a cache.
-/

namespace SiteAssist.Offer

/-- The pattern of a text; one that is no pattern has no alternatives. -/
def patternOf (source : String) : FilePattern :=
  match FilePattern.parse source with
  | .ok p => p
  | .error _ => ⟨source, []⟩

/-- A new cache of what is read from the files of a pattern. A file that cannot be read for its
contents is malformed. -/
def newCache (pattern : String) (read : Path → String → Option (List α)) : FileCache α :=
  { pattern := patternOf pattern
    extract := fun _ p text =>
      match read p text with
      | some items => .items items
      | none => .malformed }

/-- The module that a file belongs to by its name: what comes before the given ending. -/
def moduleOfFile (p : Path) (ending : String) : String :=
  let name := p.fileName?.getD ""
  match Text.stripSuffix? ending.toList name.toList with
  | some stem => String.ofList stem
  | none => name

end SiteAssist.Offer
