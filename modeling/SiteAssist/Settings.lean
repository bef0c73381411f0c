import SiteAssist.Json.Decoder
import SiteAssist.FileTree

/-!
# Settings of the external tools

The client configures four tools: each may be enabled, given a path and given arguments. Settings
come as a JSON object, itself or under the key `drupal`; what is left out keeps its default, and
`null` stands for the defaults altogether.

A tool is run from the path configured, taken from the root of the site, or else from
`vendor/bin`.
-/

namespace SiteAssist

/-- The tools that settings speak of. -/
inductive Tool where
  | phpcs
  | phpcbf
  | phpstan
  | drush
  deriving Repr, DecidableEq

/-- The name of a tool, which is also that of its executable. -/
def Tool.name : Tool → String
  | .phpcs => "phpcs"
  | .phpcbf => "phpcbf"
  | .phpstan => "phpstan"
  | .drush => "drush"

/-- All tools, in the order in which they are checked. -/
def Tool.all : List Tool := [.phpcs, .phpcbf, .phpstan, .drush]

/-- The settings of one tool. -/
structure ToolSettings where
  enabled : Bool := false
  executablePath : String := ""
  args : List String := []
  deriving Repr, DecidableEq, Inhabited

/-- The settings of all tools. -/
structure Settings where
  phpcs : ToolSettings := {}
  phpcbf : ToolSettings := {}
  phpstan : ToolSettings := {}
  drush : ToolSettings := {}
  deriving Repr, DecidableEq, Inhabited

open Json.Decoder in
/-- The settings of one tool, each field defaulted. -/
def ToolSettings.decode : Json.Decoder ToolSettings :=
  record "ToolSettings"
    [{ name := "enabled", defaulted := true
       decode := fun t v => (bool v).map fun x => { t with enabled := x } },
     { name := "executablePath", defaulted := true
       decode := fun t v => (string v).map fun x => { t with executablePath := x } },
     { name := "args", defaulted := true
       decode := fun t v => (list string v).map fun x => { t with args := x } }]
    {}

namespace Settings

open Json.Decoder in
/-- The settings object, each tool defaulted. -/
def decode : Json.Decoder Settings :=
  record "DrupalSettings"
    [{ name := "phpcs", defaulted := true
       decode := fun s v => (ToolSettings.decode v).map fun t => { s with phpcs := t } },
     { name := "phpcbf", defaulted := true
       decode := fun s v => (ToolSettings.decode v).map fun t => { s with phpcbf := t } },
     { name := "phpstan", defaulted := true
       decode := fun s v => (ToolSettings.decode v).map fun t => { s with phpstan := t } },
     { name := "drush", defaulted := true
       decode := fun s v => (ToolSettings.decode v).map fun t => { s with drush := t } }]
    {}

/-- Settings from a client's payload, bare or under `drupal`. -/
def ofJson (payload : Json) : Except Json.ShapeError Settings :=
  let value := (payload.get? "drupal").getD payload
  if value.isNull then .ok {} else decode value

/-- The settings of a tool. -/
def tool (s : Settings) : Tool → ToolSettings
  | .phpcs => s.phpcs
  | .phpcbf => s.phpcbf
  | .phpstan => s.phpstan
  | .drush => s.drush

end Settings

namespace ToolSettings

/-- The path a tool would be run from. -/
def pathIn (s : ToolSettings) (root : Path) (tool : Tool) : Path :=
  if s.executablePath = "" then ((root.join "vendor").join "bin").join tool.name
  else root.join s.executablePath

/-- A tool's executable, if a regular file stands at its path; else that path. -/
def executable (s : ToolSettings) (tree : FileTree) (root : Path) (tool : Tool) :
    Except Path Path :=
  let p := s.pathIn root tool
  if tree.isFile p then .ok p else .error p

end ToolSettings

/-- The wording of a tool that cannot be found at its path. -/
def Tool.missingMessage (tool : Tool) (p : Path) : String :=
  tool.name ++ " executable not found at " ++ p.text

end SiteAssist
