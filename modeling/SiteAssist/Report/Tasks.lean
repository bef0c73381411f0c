import SiteAssist.Json.Reader

/-!
# Tasks from the command listing

The site's command-line tool lists its commands in JSON. Those that are not hidden become tasks, in
the order of the listing. The listing is read directly from its text.
-/

namespace SiteAssist.Report

/-- A task and the command line that runs it. -/
structure Task where
  name : String
  detail : Option String
  command : String
  deriving Repr, DecidableEq

/-- A listed command. -/
structure ListedCommand where
  name : Option String := none
  description : Option String := none
  hidden : Bool := false

open Json.Reader in
/-- A reader of one command; only its name is needed. -/
def ListedCommand.read : Json.Reader (String × ListedCommand) :=
  demand
    (record
      [{ name := "name", defaulted := false
         read := fun c => fun d s =>
          (string d s).map fun (x, r) => ({ c with name := some x }, r) },
       { name := "description", defaulted := true
         read := fun c => fun d s =>
          (optional string d s).map fun (x, r) => ({ c with description := x }, r) },
       { name := "hidden", defaulted := true
         read := fun c => fun d s => (bool d s).map fun (x, r) => ({ c with hidden := x }, r) }]
      ({} : ListedCommand))
    fun c => c.name.map (·, c)

open Json.Reader in
/-- A reader of the listing. -/
def listing : Json.Reader (List (String × ListedCommand)) :=
  demand
    (record
      [{ name := "commands", defaulted := false
         read := fun _ => fun d s => (list ListedCommand.read d s).map fun (x, r) => (some x, r) }]
      none)
    id

/-- The tasks of a listing, run through the given tool. -/
def tasks (json tool : String) : Except Json.Fault (List Task) :=
  (listing.run json).map fun commands =>
    (commands.filter (!·.2.hidden)).map fun (name, c) =>
      { name, detail := c.description.filter (· ≠ ""), command := tool ++ " " ++ name }

end SiteAssist.Report
