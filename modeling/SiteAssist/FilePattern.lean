import SiteAssist.Glob.Walk
import SiteAssist.Glob.Braces

/-!
# File patterns of a site

A file pattern is a glob relative to the root of a site, with brace groups. It can be asked whether
it `accepts` a path, and searched for in a tree of files: `files` lists the regular files that some
alternative leads to, alternative by alternative, a file once.
-/

namespace SiteAssist

/-- A glob relative to a root, and the patterns its brace groups stand for. -/
structure FilePattern where
  source : String
  alternatives : List Glob.Pattern
  deriving Repr, DecidableEq

namespace FilePattern

/-- An alternative that is no pattern, and why. -/
structure Error where
  alternative : String
  cause : Glob.PatternError
  deriving Repr, DecidableEq

/-- The wording of an error. -/
def Error.message (e : Error) : String :=
  "invalid glob pattern `" ++ e.alternative ++ "`: " ++ e.cause.message

/-- The pattern of a text; the first alternative at fault is reported. -/
def parse (source : String) : Except Error FilePattern :=
  ((Glob.expandBraces source.toList).mapM fun (s : List Char) =>
    (Glob.Pattern.parse (String.ofList s)).mapError (Error.mk (String.ofList s))).map
      (FilePattern.mk source)

/-- A path lies under the root and some alternative fits the rest of it. -/
def accepts (p : FilePattern) (root path : Path) : Bool :=
  match Path.relativeTo? root path with
  | none => false
  | some rest => p.alternatives.any (·.fits rest.toList)

/-- The absolute pattern of an alternative below a root, whose own wildcards are escaped. -/
def absolute (root : Path) (alternative : Glob.Pattern) : List Char :=
  let escaped := Glob.escape root.text.toList
  (escaped.reverse.dropWhile (· == '/')).reverse ++ '/' :: alternative.source.toList

/-- Paths without those that are the same as an earlier one. -/
def distinct (paths : List Path) : List Path :=
  (paths.foldl (fun acc p => if acc.any (·.same p) then acc else p :: acc) []).reverse

/-- The files under a root that the pattern finds. -/
def files (p : FilePattern) (tree : FileTree) (root : Path) : List Path :=
  distinct (p.alternatives.flatMap fun a => Glob.search tree (absolute root a))

end FilePattern

end SiteAssist
