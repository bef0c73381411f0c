import SiteAssist.FilePattern

/-!
# Items cached per file

A cache keeps, for each file that its pattern finds, the items that were extracted from it, and the
concatenation of all of them ready for queries. `populate` scans the tree and rebuilds every entry;
`refresh` reads one file again and `remove` drops one. An unreadable file keeps what was cached, a
malformed one gets no items, and an extractor that breaks off leaves the cache as it was.

While an extractor runs the cache is `populating`, which is what the extractor is told; after any
operation it is `ready` if it has ever been populated.
-/

namespace SiteAssist

/-- The outcome of extracting items from one file. -/
inductive Extraction (α : Type) where
  | items (items : List α)
  | malformed
  /-- the extractor broke off -/
  | broken

/-- The state a cache shows to the outside. -/
inductive CacheStatus where
  | uninitialised
  | populating
  | ready
  deriving Repr, DecidableEq

/-- The name of a status. -/
def CacheStatus.name : CacheStatus → String
  | .uninitialised => "Uninitialized"
  | .populating => "Populating"
  | .ready => "Ready"

/-- A change to a file that the client reports. -/
inductive FileEvent where
  | created
  | changed
  | deleted
  deriving Repr, DecidableEq

/-- An operation was carried out, or its extractor broke off. -/
inductive Outcome where
  | done
  | broken
  deriving Repr, DecidableEq

/-- The entries of a cache in the order they were first added, and their items in one list. -/
structure Snapshot (α : Type) where
  entries : List (Path × List α)
  flattened : List α

/-- The snapshot of a list of entries. -/
def Snapshot.ofEntries (entries : List (Path × List α)) : Snapshot α :=
  ⟨entries, entries.flatMap Prod.snd⟩

/-- A cache of items by file. The extractor is given the status that it could observe. -/
structure FileCache (α : Type) where
  pattern : FilePattern
  extract : CacheStatus → Path → String → Extraction α
  snapshot : Snapshot α := ⟨[], []⟩
  populated : Bool := false
  inFlight : Nat := 0

namespace FileCache

/-- The status of a cache. -/
def status (c : FileCache α) : CacheStatus :=
  if c.inFlight > 0 then .populating else if c.populated then .ready else .uninitialised

/-- The items of all files. -/
def items (c : FileCache α) : List α := c.snapshot.flattened

/-- The items of one file. -/
def entry? (c : FileCache α) (p : Path) : Option (List α) :=
  (c.snapshot.entries.find? (·.1.same p)).map Prod.snd

/-- The number of files with an entry. -/
def fileCount (c : FileCache α) : Nat := c.snapshot.entries.length

/-- A file-system event for a path concerns the cache. -/
def watches (c : FileCache α) (root p : Path) : Bool := c.pattern.accepts root p

/-- One extraction begins. -/
def began (c : FileCache α) : FileCache α := { c with inFlight := c.inFlight + 1 }

/-- One extraction is over. -/
def ended (c : FileCache α) : FileCache α := { c with inFlight := c.inFlight - 1 }

/-- The items of a file's text, or nothing if the extractor breaks off. -/
def extractItems? (c : FileCache α) (p : Path) (text : String) : Option (List α) :=
  match c.extract c.status p text with
  | .items items => some items
  | .malformed => some []
  | .broken => none

/-- The entries of the readable files among some, or nothing if the extractor breaks off. -/
def scan? (c : FileCache α) (tree : FileTree) : List Path → Option (List (Path × List α))
  | [] => some []
  | p :: ps =>
    match tree.readText? p with
    | none => scan? c tree ps
    | some text => do
      let items ← c.extractItems? p text
      let entries ← scan? c tree ps
      some ((p, items) :: entries)

/-- The cache rebuilt from the tree. -/
def populate (c : FileCache α) (tree : FileTree) (root : Path) : FileCache α × Outcome :=
  let running := c.began
  match running.scan? tree (c.pattern.files tree root) with
  | some entries =>
    ({ running with snapshot := .ofEntries entries, populated := true }.ended, .done)
  | none => (running.ended, .broken)

/-- Entries with the items of one file replaced in place or added at the end. -/
def putEntry (p : Path) (items : List α) : List (Path × List α) → List (Path × List α)
  | [] => [(p, items)]
  | (q, old) :: rest =>
    if q.same p then (q, items) :: rest else (q, old) :: putEntry p items rest

/-- The cache after reading one file again. -/
def refresh (c : FileCache α) (tree : FileTree) (p : Path) : FileCache α × Outcome :=
  match tree.readText? p with
  | none => (c, .done)
  | some text =>
    let running := c.began
    match running.extractItems? p text with
    | some items =>
      let snapshot := Snapshot.ofEntries (putEntry p items c.snapshot.entries)
      ({ running with snapshot }.ended, .done)
    | none => (running.ended, .broken)

/-- The cache without one file. -/
def remove (c : FileCache α) (p : Path) : FileCache α :=
  if (c.entry? p).isNone then c
  else { c with snapshot := .ofEntries (c.snapshot.entries.filter fun e => !e.1.same p) }

/-- The cache after an event for a path. -/
def apply (c : FileCache α) (tree : FileTree) (p : Path) : FileEvent → FileCache α × Outcome
  | .created => c.refresh tree p
  | .changed => c.refresh tree p
  | .deleted => (c.remove p, .done)

end FileCache

end SiteAssist
