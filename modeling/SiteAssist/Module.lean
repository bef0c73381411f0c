import SiteAssist.FileTree

/-!
# Modules of a site

A module is a directory with an info file, `NAME.info.yml`, and NAME is its machine name. A custom
module is a directory right below `web/modules/custom` whose name is a word.
-/

namespace SiteAssist.Module

/-- How the name of an info file ends. -/
def infoSuffix : String := ".info.yml"

/-- The machine name that a directory gives: of several info files, that of the least name. -/
def nameAt? (tree : FileTree) (dir : Path) : Option String :=
  let names := (tree.names dir).filterMap fun file =>
    if tree.isFile (dir.join file) then
      (Text.stripSuffix? infoSuffix.toList file.toList).filter (!·.isEmpty)
    else none
  names.foldl (fun least name =>
    match least with
    | none => some (String.ofList name)
    | some l => if Text.ordered l.toList name then some l else some (String.ofList name)) none

/-- The machine name of the nearest module from a directory up to the root. -/
def nameFrom? (tree : FileTree) (root : Path) : Nat → Path → Option String
  | 0, _ => none
  | fuel + 1, dir =>
    if ¬dir.under root then none
    else match nameAt? tree dir with
      | some name => some name
      | none =>
        if dir.same root then none
        else dir.parent?.bind (nameFrom? tree root fuel)

/-- The machine name of the module around a file, looked for no further up than the root. -/
def machineName? (tree : FileTree) (root p : Path) : Option String :=
  p.parent?.bind (nameFrom? tree root (p.steps.length + 1))

/-- The steps from the site's code to custom modules. -/
def customSteps : List Path.Step := [.name "web", .name "modules", .name "custom"]

/-- A step that can be the name of a module. -/
def isModuleName : Path.Step → Bool
  | .name n => n.toList.all Text.isName
  | _ => false

/-- The number of steps up to and with the first custom module on a path. -/
def customLength? : List Path.Step → Option Nat
  | [] => none
  | s :: ss =>
    match customSteps.isPrefixOf (s :: ss), (s :: ss).drop 3 with
    | true, name :: _ => if isModuleName name then some 4 else (customLength? ss).map (· + 1)
    | _, _ => (customLength? ss).map (· + 1)

/-- The directory of the custom module that a path is or lies in. -/
def customRoot? (p : Path) : Option Path :=
  (customLength? p.steps).map fun n => Path.ofSteps (p.steps.take n)

end SiteAssist.Module
