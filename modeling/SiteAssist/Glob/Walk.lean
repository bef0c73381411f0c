import SiteAssist.Glob.Pattern
import SiteAssist.FileTree

/-!
# Searching a tree for a pattern

A pattern is searched for one component at a time. A component without wildcards is looked up
directly; one with wildcards is tried on every name of the directory, in order; `**` tries the next
component in every directory below. `.` and `..` are found by a component that spells them out or
that starts with a dot and fits them.

What is found comes in the order of the walk: at each directory the names ascend, and a directory
that fits comes with all that is found in it before the next name.
-/

namespace SiteAssist.Glob

/-- The names below a directory, each with what is found at it and then what is found below
it. -/
def descend (tree : FileTree) (found : Path → String → List Path) : Nat → Path → List Path
  | 0, _ => []
  | fuel + 1, dir =>
    (tree.names dir).flatMap fun name =>
      found (dir.join name) name ++ descend tree found fuel (dir.join name)

/-- The names `..` and `.` that a component spells with a leading dot. -/
def dotNames (component : Pattern) : List String :=
  if component.tokens.head? = some (.literal '.') then
    ["..", "."].filter fun name => component.fits name.toList
  else []

/-- Everything that the components of a pattern lead to from a path. -/
def walk (tree : FileTree) : List Pattern → Path → List Path
  | [], p => [p]
  | component :: rest, p =>
    match component.literal? with
    | some name =>
      let next := p.join name
      if name = "." ∨ name = ".." then
        if tree.isDirectory p then walk tree rest next else []
      else if tree.present next then walk tree rest next
      else []
    | none =>
      if ¬tree.isDirectory p then []
      else if component.isRecursive then
        match rest with
        | [] =>
          descend tree (fun q _ => if tree.isDirectory q then [q] else []) (tree.height + 1) p
        | component :: rest =>
          descend tree
            (fun q name => if component.fits name.toList then walk tree rest q else [])
            (tree.height + 1) p
      else
        ((dotNames component).flatMap fun name => walk tree rest (p.join name)) ++
          (tree.names p).flatMap fun name =>
            if component.fits name.toList then walk tree rest (p.join name) else []

/-- Of several `**` in a row one is enough. -/
def collapse : List Pattern → List Pattern
  | a :: b :: rest =>
    if a.isRecursive && b.isRecursive then collapse (b :: rest) else a :: collapse (b :: rest)
  | ps => ps

/-- The components of an absolute pattern, each a pattern of its own. -/
def components? (text : List Char) : Option (List Pattern) :=
  match text with
  | '/' :: rest =>
    let pieces := rest.splitOn '/'
    let pieces := if pieces.getLast? = some [] then pieces.dropLast else pieces
    pieces.mapM fun piece => (Pattern.parse (String.ofList piece)).toOption
  | _ => none

/-- The regular files that an absolute pattern leads to. A pattern that ends in a separator
asks for directories and finds none. -/
def search (tree : FileTree) (text : List Char) : List Path :=
  if text.getLast? = some '/' then []
  else match components? text with
    | none => []
    | some components => (walk tree (collapse components) ⟨"/"⟩).filter tree.isFile

end SiteAssist.Glob
