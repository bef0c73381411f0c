import SiteAssist.Offer.Basic
import SiteAssist.Hook
import SiteAssist.Module

/-!
# Offering hooks

Hooks are offered where a declaration may start, under the name of the module around the file if
there is one.
-/

namespace SiteAssist.Offer.Hooks

/-- The files that document hooks. -/
def pattern : String :=
  "web/\x7bcore,core/modules/*,modules/contrib/*,modules/custom/*\x7d/" ++
    "*.\x7bapi.php,module,theme\x7d"

/-- The hooks of one file as completions. -/
def read (_ : Path) (text : String) : Option (List Completion) :=
  some ((Hook.ofSource text).map Hook.completion)

/-- A new cache of hooks. -/
def cache : FileCache Completion := newCache pattern read

/-- The hooks offered at a request, given those that are known. -/
def offered (tree : FileTree) (root : Path) (known : List Completion) (r : Request) :
    List Completion :=
  if r.language ≠ .php ∨ ¬LinePrefix.isDeclaration r.linePrefix.toList then []
  else match Module.machineName? tree root r.path with
    | some name => known.map (Hook.specialised · name)
    | none => known

end SiteAssist.Offer.Hooks
