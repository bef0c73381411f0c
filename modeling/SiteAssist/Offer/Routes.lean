import SiteAssist.Offer.Basic
import SiteAssist.DeclaredNames

/-!
# Offering routes

The names of routes are offered in code, right after the quotation mark that opens the argument for
one. For a link that argument is the second, and any text may stand in the first.
-/

namespace SiteAssist.Offer.Routes

/-- The files that declare routes. -/
def pattern : String := "web/\x7bcore/modules,modules/contrib,modules/custom\x7d/*/*.routing.yml"

/-- How the names of these files end. -/
def ending : String := ".routing.yml"

/-- The routes of one file as completions. -/
def read (p : Path) (text : String) : Option (List Completion) :=
  (DeclaredNames.routes text).toOption.map fun names =>
    names.map fun name =>
      { label := name, kind := .keyword
        detail := some ("Route " ++ moduleOfFile p ending) }

/-- A new cache of routes. -/
def cache : FileCache Completion := newCache pattern read

/-- The calls that take a route as their first argument. -/
def directCalls : List (List Char) := ["Url::fromRoute(".toList, "new Url(".toList]

/-- The call that takes a route as its second argument. -/
def linkCall : List Char := "Link::createFromRoute(".toList

/-- The quotation mark of a literal at the end of a text, taken off. -/
def dropQuote? (s : List Char) : Option (List Char) :=
  match s.getLast? with
  | some c => if LinePrefix.isQuote c then some s.dropLast else none
  | none => none

/-- The last line of a text. -/
def lastLine (s : List Char) : List Char := (s.reverse.takeWhile (· ≠ '\n')).reverse

/-- The first argument of a link stands closed before the end of the text, on one line. -/
def endsInLinkText (s : List Char) : Bool :=
  match (Text.stripSuffix? ", ".toList s).bind dropQuote? with
  | none => false
  | some s =>
    ['\'', '"'].any fun quote => Text.contains (linkCall ++ [quote]) (lastLine s)

/-- A route is expected next. -/
def isTriggered (s : List Char) : Bool :=
  match dropQuote? s with
  | none => false
  | some before =>
    directCalls.any (fun call => (Text.stripSuffix? call before).isSome) || endsInLinkText before

/-- The routes offered at a request, given those that are known. -/
def offered (root : Path) (known : List Completion) (r : Request) : List Completion :=
  if r.language = .php ∧ r.path.under root ∧ isTriggered r.linePrefix.toList then known else []

end SiteAssist.Offer.Routes
