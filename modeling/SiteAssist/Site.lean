import SiteAssist.Composer
import SiteAssist.Offer.Globals
import SiteAssist.Offer.Hooks
import SiteAssist.Offer.Routes
import SiteAssist.Offer.Services
import SiteAssist.Offer.Templates
import SiteAssist.Offer.Translations

/-!
# A site

A site is a folder with what has been read from it: a cache for each kind of symbol that its files
declare, the class files that template callbacks were looked up in, and the version of its core. The
caches are filled by `populate` and kept up to date by file events (`onEvent`); the version is read
when it is first asked for and again after its lock file has changed.

A request is answered by `complete` with what all kinds of symbols offer, in a fixed order.
-/

namespace SiteAssist

/-- The caches of a site, one for each kind of symbol that files declare. -/
structure Caches where
  hooks : FileCache Completion
  routes : FileCache Completion
  services : FileCache Completion
  globals : FileCache Completion
  translations : FileCache Offer.Translations.Entry

namespace Caches

/-- New caches. -/
def fresh : Caches :=
  { hooks := Offer.Hooks.cache
    routes := Offer.Routes.cache
    services := Offer.Services.cache
    globals := Offer.Globals.cache
    translations := Offer.Translations.cache }

/-- The caches after one change to each. -/
def map (f : {α : Type} → FileCache α → FileCache α) (c : Caches) : Caches :=
  { hooks := f c.hooks
    routes := f c.routes
    services := f c.services
    globals := f c.globals
    translations := f c.translations }

/-- What is asked of each cache, under its name, in the order of offering. -/
def each (f : {α : Type} → FileCache α → β) (c : Caches) : List (String × β) :=
  [("hook", f c.hooks), ("routing", f c.routes), ("services", f c.services),
   ("globals", f c.globals), ("translation", f c.translations)]

end Caches

/-- A site. Its number is that of no other site and names it to the client. -/
structure Site where
  id : Nat
  root : Path
  caches : Caches := .fresh
  outlines : Offer.Templates.Outlines := []
  /-- the core's major version, once it has been asked for -/
  version : Option Nat := none

namespace Site

/-- The version taken for a core that no lock file tells of. -/
def defaultVersion : Nat := 10

/-- The file that locks the core's version. -/
def lockFile : String := "composer.lock"

/-- A path belongs to the site. -/
def hasFile (s : Site) (p : Path) : Bool := p.under s.root

/-- The site with every cache filled from the tree. -/
def populate (s : Site) (tree : FileTree) : Site :=
  { s with caches := s.caches.map fun c => (c.populate tree s.root).1 }

/-- The status of each cache. -/
def status (s : Site) : List (String × CacheStatus) := s.caches.each FileCache.status

/-- The patterns of the files whose changes matter. -/
def watchPatterns (s : Site) : List String :=
  (s.caches.each (·.pattern.source)).map (·.2) ++ [lockFile]

/-- The site after a file event: the lock file makes the version forgotten, any other file of
the site is read again by the caches that it concerns. -/
def onEvent (s : Site) (tree : FileTree) (p : Path) (event : FileEvent) : Site :=
  if ¬s.hasFile p then s
  else if p.same (s.root.join lockFile) then { s with version := none }
  else
    { s with caches := s.caches.map fun c =>
        if c.watches s.root p then (c.apply tree p event).1 else c }

/-- All that is offered at a request. -/
def complete (s : Site) (tree : FileTree) (r : Request) : List Completion :=
  if ¬s.hasFile r.path then []
  else
    Offer.Hooks.offered tree s.root s.caches.hooks.items r
      ++ Offer.Routes.offered s.root s.caches.routes.items r
      ++ Offer.Services.offered s.root s.caches.services.items r
      ++ Offer.Globals.offered s.root s.caches.globals.items r
      ++ Offer.Translations.offered s.caches.translations.items r
      ++ Offer.Templates.offered s.root r

/-- An item was offered by this site and can be resolved here. -/
def owns (s : Site) (item : Completion) : Bool := Offer.Templates.owns s.root item

/-- An item with its documentation. -/
def resolve (s : Site) (tree : FileTree) (item : Completion) : Completion × Site :=
  let (item, outlines) := Offer.Templates.resolve tree s.root s.outlines item
  (item, { s with outlines })

/-- The core's major version. -/
def coreVersion (s : Site) (tree : FileTree) : Nat × Site :=
  match s.version with
  | some v => (v, s)
  | none =>
    let v := (Composer.lockedVersion? tree s.root).getD defaultVersion
    (v, { s with version := some v })

/-- The page that searches the documentation of a core version for a symbol. -/
def searchUrl (version : Nat) (symbol : String) : String :=
  "https://api.drupal.org/api/drupal/" ++ toString version ++ "/search/" ++ symbol

/-- The search page for a symbol in the site's own core version. -/
def apiSearchUrl (s : Site) (tree : FileTree) (symbol : String) : String × Site :=
  let (v, s) := s.coreVersion tree
  (searchUrl v symbol, s)

/-- Two sites are the same when they have one number, whatever their folders. -/
def same (s t : Site) : Bool := s.id == t.id

/-- The sites among some folders, given the canonical paths of those that came before and the
number of the next site. -/
def locateAfter (tree : FileTree) (seen : List Path) (nextId : Nat) : List Path → List Site
  | [] => []
  | folder :: rest =>
    let canonical := (tree.canonical? folder).getD folder
    if seen.any (·.same canonical) then locateAfter tree seen nextId rest
    else if Composer.isSite tree folder then
      { id := nextId, root := folder } :: locateAfter tree (canonical :: seen) (nextId + 1) rest
    else locateAfter tree (canonical :: seen) nextId rest

/-- The sites among some folders, numbered from `nextId` on: those whose manifest requires the
core. Of folders with one canonical path only the first is looked at. -/
def locate (tree : FileTree) (nextId : Nat) (folders : List Path) : List Site :=
  locateAfter tree [] nextId folders

end Site

end SiteAssist
