import SiteAssist.Offer.Basic
import SiteAssist.DeclaredNames

/-!
# Offering services

The identifiers of services are offered in code on a line that asks the container for one.
-/

namespace SiteAssist.Offer.Services

/-- The files that declare services. -/
def pattern : String :=
  "web/\x7bcore,core/modules/*,modules/contrib/*,modules/custom/*\x7d/*.services.yml"

/-- How the names of these files end. -/
def ending : String := ".services.yml"

/-- The services of one file as completions. -/
def read (p : Path) (text : String) : Option (List Completion) :=
  (DeclaredNames.services text).toOption.map fun names =>
    names.map fun name =>
      { label := moduleOfFile p ending ++ "." ++ name, kind := .classType
        detail := some "Service" }

/-- A new cache of services. -/
def cache : FileCache Completion := newCache pattern read

/-- The calls that ask for a service. -/
def calls : List (List Char) :=
  ["Drupal::service(".toList, "$container->get(".toList, "$container->getDefinition(".toList]

/-- The services offered at a request, given those that are known. -/
def offered (root : Path) (known : List Completion) (r : Request) : List Completion :=
  if r.language = .php ∧ r.path.under root
      ∧ calls.any (Text.contains · r.linePrefix.toList) then known else []

end SiteAssist.Offer.Services
