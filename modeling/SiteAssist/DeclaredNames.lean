import SiteAssist.Yaml.Value

/-!
# Names declared in YAML files

A routing file declares a route by each key at its top level, a services file a service by each key
of its `services` mapping. Only texts are names. The key `_defaults` configures the other services
and declares none.
-/

namespace SiteAssist.DeclaredNames

/-- The keys that are texts, in order. -/
def textKeys (entries : List (Yaml.Value × Yaml.Value)) : List String :=
  entries.filterMap fun e => e.1.asString?

/-- The value under a key that is this text and has no tag. -/
def valueAt? (key : String) (entries : List (Yaml.Value × Yaml.Value)) : Option Yaml.Value :=
  (entries.find? fun e => Yaml.Value.same (.string key) e.1).map (·.2)

/-- The routes that a routing file declares. -/
def routes (source : String) : Except Yaml.Fault (List String) :=
  (Yaml.parse source).map fun v => textKeys (v.asMapping?.getD [])

/-- The key that declares no service. -/
def defaultsKey : String := "_defaults"

/-- The services that a services file declares. -/
def services (source : String) : Except Yaml.Fault (List String) :=
  (Yaml.parse source).map fun v =>
    let entries := (v.asMapping?.bind (valueAt? "services")).bind (·.asMapping?)
    (textKeys (entries.getD [])).filter (· ≠ defaultsKey)

end SiteAssist.DeclaredNames
