import SiteAssist.Text.Class
import SiteAssist.Text.Basic

/-!
# File paths

A path is the text it was given as. What it names is its list of components: repeated separators
and inner `.` steps do not count, `..` steps do. Two paths are the *same* when their components are
(`Path.same`), and one lies under another when its components start with the other's (`Path.under`).

`join` keeps the text of both parts, and an absolute right-hand side replaces the left one;
`ofSteps` is the plain spelling of a list of components; `relativeTo?` is the text of a path
after a root, freed of separators and `.` steps at both ends.
-/

namespace SiteAssist

/-- A file path, as written. -/
structure Path where
  text : String
  deriving Repr, DecidableEq, Inhabited

namespace Path

/-- One step of a path. -/
inductive Step where
  | root
  /-- a `.` that starts a relative path -/
  | here
  | up
  | name (text : String)
  deriving Repr, DecidableEq

/-- What is written for a step. -/
def Step.text : Step → String
  | .root => "/"
  | .here => "."
  | .up => ".."
  | .name n => n

/-- The step that a piece between separators stands for, unless it stands for none. -/
def stepOf? (piece : List Char) : Option Step :=
  if piece = [] ∨ piece = ['.'] then none
  else if piece = ['.', '.'] then some .up
  else some (.name (String.ofList piece))

/-- The pieces of a text between its separators. -/
def pieces (text : List Char) : List (List Char) := text.splitOn '/'

/-- The path starts at the root. -/
def isAbsolute (p : Path) : Bool := p.text.toList.head? == some '/'

/-- The components of a path. -/
def steps (p : Path) : List Step :=
  match pieces p.text.toList with
  | [] => []
  | first :: rest =>
    let lead : List Step :=
      if first = [] then (if p.isAbsolute then [.root] else [])
      else if first = ['.'] then [.here]
      else (stepOf? first).toList
    lead ++ rest.filterMap stepOf?

/-- Two paths have the same components. -/
def same (p q : Path) : Bool := p.steps == q.steps

/-- A path is a root or lies under it. -/
def under (p root : Path) : Bool := root.steps.isPrefixOf p.steps

/-- A path followed by another. -/
def join (p : Path) (tail : String) : Path :=
  if tail.toList.head? == some '/' ∨ p.text = "" then ⟨tail⟩
  else if p.text.toList.getLast? == some '/' then ⟨p.text ++ tail⟩
  else ⟨p.text ++ "/" ++ tail⟩

/-- The path that spells out the steps. -/
def ofSteps (ss : List Step) : Path := ss.foldl (fun p s => p.join s.text) ⟨""⟩

/-- The last name of a path, if the path ends in one. -/
def fileName? (p : Path) : Option String :=
  match p.steps.getLast? with
  | some (.name n) => some n
  | _ => none

/-- The path without its last step; the root has none. -/
def parent? (p : Path) : Option Path :=
  match p.steps.getLast? with
  | none => none
  | some .root => none
  | some _ => some (ofSteps p.steps.dropLast)

/-- The pieces left after a number of steps. -/
def dropSteps : Nat → List (List Char) → List (List Char)
  | 0, ps => ps
  | _, [] => []
  | n + 1, p :: ps => if (stepOf? p).isSome then dropSteps n ps else dropSteps (n + 1) ps

/-- The pieces without those at the end that are no step. -/
def trimPieces (ps : List (List Char)) : List (List Char) :=
  (ps.reverse.dropWhile fun p => (stepOf? p).isNone).reverse

/-- The text of a path after a root that it lies under. -/
def relativeTo? (root p : Path) : Option String :=
  if ¬p.under root then none
  else
    let spell (ps : List (List Char)) : String := String.ofList (List.intercalate ['/'] ps)
    let ps := pieces p.text.toList
    match root.steps with
    | [] =>
      match ps with
      | first :: rest =>
        let rest := trimPieces rest
        if rest.isEmpty ∧ first = [] ∧ p.isAbsolute then some "/" else some (spell (first :: rest))
      | [] => some ""
    | lead :: names =>
      -- a leading root or `.` is the first piece, any other first step is a piece like the others
      let rest := match lead with
        | .root => dropSteps names.length (ps.drop 1)
        | .here => dropSteps names.length (ps.drop 1)
        | _ => dropSteps (names.length + 1) ps
      some (spell (trimPieces (rest.dropWhile fun q => (stepOf? q).isNone)))

/-- The name of a file up to its last dot; a dot that leads the name does not count. -/
def stem (name : List Char) : List Char :=
  match (name.reverse.dropWhile (· ≠ '.')).reverse with
  | [] => name
  | upToDot => if upToDot.length = 1 then name else upToDot.dropLast

/-- The path with its last name's extension replaced. A path that ends in no name is kept. -/
def withExtension (p : Path) (extension : String) : Path :=
  match p.fileName? with
  | none => p
  | some name =>
    let lead := (trimPieces (pieces p.text.toList)).dropLast
    let last := stem name.toList ++ '.' :: extension.toList
    ⟨String.ofList (List.intercalate ['/'] (lead ++ [last]))⟩

end Path

end SiteAssist
