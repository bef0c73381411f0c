import SiteAssist.Text.Basic

/-!
# Brace groups

A group `{a,b}` in a pattern stands for one pattern per option. Groups are expanded from the left,
the options of the first group varying slowest. A group runs from the first opening brace to the
first closing brace after it, so that what looks nested is cut at the inner closing brace and the
pieces are expanded again. Each step uses up one closing brace.
-/

namespace SiteAssist.Glob

/-- The patterns after expanding at most so many groups. -/
def expandGroups : Nat → List Char → List (List Char)
  | 0, s => [s]
  | n + 1, s =>
    match Text.cutAtFirst? (· == '\x7b') s with
    | none => [s]
    | some (before, opened) =>
      match Text.cutAtFirst? (· == '\x7d') opened with
      | none => [s]
      | some (options, after) =>
        (options.splitOn ',').flatMap fun option => expandGroups n (before ++ option ++ after)

/-- All groups expanded, left to right. -/
def expandBraces (s : List Char) : List (List Char) := expandGroups (s.count '\x7d') s

end SiteAssist.Glob
