import SiteAssist.Json.Reader
import SiteAssist.FileTree

/-!
# Package manifests and lock files

A folder is a site when its `composer.json` requires the recommended core package; the core that is
installed is named in `composer.lock`. Both are read directly into the few fields that count, so
that a fault in a part that does not count matters only if the text is no JSON.
-/

namespace SiteAssist.Composer

/-- The package that makes a folder a site. -/
def corePackage : String := "drupal/core-recommended"

/-- The package whose locked version counts. -/
def lockedCore : String := "drupal/core"

/-- What a manifest requires, keys in the order of the text. -/
structure Manifest where
  requires : List String := []
  deriving Repr, DecidableEq

/-- The manifest requires the core package. -/
def Manifest.isSite (m : Manifest) : Bool := m.requires.contains corePackage

open Json.Reader in
/-- A reader of manifests. -/
def Manifest.read : Json.Reader Manifest :=
  record
    [{ name := "require", defaulted := true
       read := fun _ => fun d s => (map any d s).map fun (x, r) => (⟨x.map Prod.fst⟩, r) }]
    {}

/-- The manifest of a text. -/
def Manifest.parse (text : String) : Except Json.Fault Manifest := Manifest.read.run text

/-- Why a folder has no usable manifest. -/
inductive ManifestError where
  | unreadable
  | invalid (fault : Json.Fault)
  deriving Repr, DecidableEq

/-- The manifest of a folder. -/
def readManifest (tree : FileTree) (dir : Path) : Except ManifestError Manifest :=
  match tree.readText? (dir.join "composer.json") with
  | none => .error .unreadable
  | some text => (Manifest.parse text).mapError .invalid

/-- A folder is a site; one without a usable manifest is none. -/
def isSite (tree : FileTree) (dir : Path) : Bool :=
  match readManifest tree dir with
  | .ok m => m.isSite
  | .error _ => false

/-- A locked package, its fields as they are found. -/
structure Locked where
  name : Option String := none
  version : Option String := none

open Json.Reader in
/-- The fields of a locked package, each taken as it is found. -/
def Locked.fields : List (Json.Reader.Field Locked) :=
  [{ name := "name", defaulted := false
     read := fun p => fun d s => (string d s).map fun (x, r) => ({ p with name := some x }, r) },
   { name := "version", defaulted := false
     read := fun p => fun d s => (string d s).map fun (x, r) => ({ p with version := some x }, r) }]

open Json.Reader in
/-- A reader of one locked package: name and version are needed. -/
def Locked.read : Json.Reader (String × String) :=
  demand (record Locked.fields {}) fun p => p.name.bind fun n => p.version.map fun v => (n, v)

open Json.Reader in
/-- The fields of a lock file. -/
def lockFields : List (Json.Reader.Field (List (String × String))) :=
  [{ name := "packages", defaulted := true, read := fun _ => list Locked.read }]

open Json.Reader in
/-- A reader of the locked packages: name and version of each. -/
def lockFile : Json.Reader (List (String × String)) := record lockFields []

/-- The number before the first dot, leading `v`s dropped. -/
def majorOf? (version : String) : Option Nat :=
  let digits := (version.toList.dropWhile (· = 'v')).takeWhile (· ≠ '.')
  Text.boundedNat? (Nat.pow 2 32) digits

/-- The core version of a lock file: that of the first package of the core's name. -/
def coreVersion? (text : String) : Option Nat :=
  match lockFile.run text with
  | .error _ => none
  | .ok packages => ((packages.find? (·.1 = lockedCore)).bind fun p => majorOf? p.2)

/-- The core version locked in a folder. -/
def lockedVersion? (tree : FileTree) (dir : Path) : Option Nat :=
  (tree.readText? (dir.join "composer.lock")).bind coreVersion?

end SiteAssist.Composer
