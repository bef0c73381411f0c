import SiteAssist.Path

/-!
# A tree of files

The file tree holds directories and regular files, each at a location: the names on the way from
the root, outermost first. Every operation that names a file goes through `locate?`, which follows
a path step by step the way a file system does: each step but the last has to lead from a directory,
`..` leads to the directory above, and a trailing separator asks for a directory. Only absolute
paths lead anywhere.

A file is read as text only if its bytes are well-formed UTF-8. Names in a directory are listed in
ascending order.
-/

namespace SiteAssist

/-- What stands at a location: the names from the root down. -/
abbrev Location := List String

/-- A directory or a regular file with its bytes. -/
inductive Entry where
  | directory
  | file (content : ByteArray)

/-- A tree of files, as its entries by location. The root is always a directory. -/
structure FileTree where
  entries : List (Location × Entry)

namespace FileTree

/-- The tree of the root alone. -/
def empty : FileTree := ⟨[]⟩

/-- The entry at a location. -/
def entry? (tree : FileTree) (loc : Location) : Option Entry :=
  if loc = [] then some .directory else tree.entries.lookup loc

/-- There is a directory at the location. -/
def isDirectoryAt (tree : FileTree) (loc : Location) : Bool :=
  match tree.entry? loc with
  | some .directory => true
  | _ => false

/-- Follow the pieces of a path from a location. -/
def follow (tree : FileTree) (loc : Location) : List (List Char) → Option Location
  | [] => some loc
  | piece :: rest =>
    if ¬tree.isDirectoryAt loc then none
    else if piece = [] ∨ piece = ['.'] then follow tree loc rest
    else if piece = ['.', '.'] then follow tree loc.dropLast rest
    else follow tree (loc ++ [String.ofList piece]) rest

/-- The location that a path leads to, whether or not anything is there. -/
def locate? (tree : FileTree) (p : Path) : Option Location :=
  match Path.pieces p.text.toList with
  | [] :: rest => if p.isAbsolute then tree.follow [] rest else none
  | _ => none

/-- The entry that a path leads to. -/
def find? (tree : FileTree) (p : Path) : Option Entry := (tree.locate? p).bind tree.entry?

/-- The path leads to anything. -/
def present (tree : FileTree) (p : Path) : Bool := (tree.find? p).isSome

/-- The path leads to a directory. -/
def isDirectory (tree : FileTree) (p : Path) : Bool :=
  match tree.find? p with
  | some .directory => true
  | _ => false

/-- The path leads to a regular file. -/
def isFile (tree : FileTree) (p : Path) : Bool :=
  match tree.find? p with
  | some (.file _) => true
  | _ => false

/-- The text of a file, if the path leads to one and its bytes are UTF-8. -/
def readText? (tree : FileTree) (p : Path) : Option String :=
  match tree.find? p with
  | some (.file content) => String.fromUTF8? content
  | _ => none

/-- The last name of a location that lies directly in another. -/
def nameIn? (dir : Location) (loc : Location) : Option String :=
  if loc.dropLast = dir then loc.getLast? else none

/-- A name put in order; one that is there already is not repeated. -/
def insertName (name : String) : List String → List String
  | [] => [name]
  | n :: ns =>
    if name = n then n :: ns
    else if Text.ordered name.toList n.toList then name :: n :: ns
    else n :: insertName name ns

/-- The names in a directory, ascending. -/
def namesAt (tree : FileTree) (dir : Location) : List String :=
  (tree.entries.filterMap fun (loc, _) => nameIn? dir loc).foldr insertName []

/-- The names in the directory that a path leads to. -/
def names (tree : FileTree) (p : Path) : List String :=
  match tree.locate? p with
  | some loc => if tree.isDirectoryAt loc then tree.namesAt loc else []
  | none => []

/-- The plain spelling of the path to a location. -/
def pathOf (loc : Location) : Path := ⟨"/" ++ "/".intercalate loc⟩

/-- The one canonical path of what a path leads to. -/
def canonical? (tree : FileTree) (p : Path) : Option Path :=
  (tree.locate? p).bind fun loc => (tree.entry? loc).map fun _ => pathOf loc

/-- The deepest nesting of the tree. -/
def height (tree : FileTree) : Nat := (tree.entries.map fun (loc, _) => loc.length).foldr max 0

/-- The tree with one entry set. -/
def set (tree : FileTree) (loc : Location) (e : Entry) : FileTree :=
  ⟨tree.entries.filter (fun (l, _) => l ≠ loc) ++ [(loc, e)]⟩

/-- The tree with a directory and those above it. A file that stands in the way is kept. -/
def mkdirAt (tree : FileTree) (above : Location) : Location → FileTree
  | [] => tree
  | name :: rest =>
    let loc := above ++ [name]
    match tree.entry? loc with
    | some (.file _) => tree
    | some .directory => tree.mkdirAt loc rest
    | none => (tree.set loc .directory).mkdirAt loc rest

/-- The names on a path that holds no `..`. -/
def plainLocation (p : Path) : Location :=
  p.steps.filterMap fun
    | .name n => some n
    | _ => none

/-- The tree with a directory, and those above it. -/
def mkdir (tree : FileTree) (p : Path) : FileTree := tree.mkdirAt [] (plainLocation p)

/-- The tree with a file written, and the directories above it. -/
def write (tree : FileTree) (p : Path) (content : ByteArray) : FileTree :=
  let loc := plainLocation p
  let tree := tree.mkdirAt [] loc.dropLast
  if tree.isDirectoryAt loc ∨ ¬tree.isDirectoryAt loc.dropLast then tree
  else tree.set loc (.file content)

/-- The tree without a file, or a directory and all in it. -/
def delete (tree : FileTree) (p : Path) : FileTree :=
  let loc := plainLocation p
  ⟨tree.entries.filter fun (l, _) => ¬loc.isPrefixOf l⟩

end FileTree

end SiteAssist
