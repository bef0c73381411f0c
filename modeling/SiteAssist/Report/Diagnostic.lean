import SiteAssist.Json.Decoder
import SiteAssist.Json.Reader

/-!
# Diagnostics from the checkers' reports

The checkers report in JSON: an object `files` holds an object for each file, and in it the list
`messages`. `phpcs` gives each message a type, a line and a column; `phpstan` at most a line, whose
whole text after its indentation is then marked. Only the messages of the file that is asked for are
looked at, and one message of a wrong shape makes the report unusable.

Lines and columns are counted from zero, in characters.
-/

namespace SiteAssist.Report

/-- How grave a diagnostic is. -/
inductive Severity where
  | error
  | warning
  deriving Repr, DecidableEq

/-- A stretch of a document: start line and column, end line and column. -/
structure Span where
  startLine : Nat
  startColumn : Nat
  endLine : Nat
  endColumn : Nat
  deriving Repr, DecidableEq

/-- A finding in a file. -/
structure Diagnostic where
  severity : Severity
  message : String
  span : Span
  source : String
  deriving Repr, DecidableEq

/-- Why a report cannot be used. -/
inductive ReportError where
  | unreadable (fault : Json.Fault)
  | misshapen (shape : Json.ShapeError)
  | missingSection (name : String)

/-- A message of `phpcs`. -/
structure CodeSnifferMessage where
  message : String
  kind : String
  line : Nat
  column : Nat

/-- A message of `phpstan`. -/
structure AnalyserMessage where
  message : String
  line : Option Nat

/-- The fields of a `phpcs` message as they are found. -/
structure CodeSnifferFields where
  message : Option String := none
  kind : Option String := none
  line : Option Nat := none
  column : Option Nat := none

open Json.Decoder in
/-- A `phpcs` message: all four fields are needed. -/
def CodeSnifferMessage.decode : Json.Decoder CodeSnifferMessage := fun v => do
  let found ← record "PhpcsMessage"
    [{ name := "message", defaulted := false
       decode := fun m v => (string v).map fun x => { m with message := some x } },
     { name := "type", defaulted := false
       decode := fun m v => (string v).map fun x => { m with kind := some x } },
     { name := "line", defaulted := false
       decode := fun m v => (word v).map fun x => { m with line := some x } },
     { name := "column", defaulted := false
       decode := fun m v => (word v).map fun x => { m with column := some x } }]
    ({} : CodeSnifferFields) v
  let message ← required "message" found.message
  let kind ← required "type" found.kind
  let line ← required "line" found.line
  let column ← required "column" found.column
  .ok { message, kind, line, column }

/-- The fields of a `phpstan` message as they are found. -/
structure AnalyserFields where
  message : Option String := none
  line : Option Nat := none

open Json.Decoder in
/-- A `phpstan` message: the line may be absent or `null`. -/
def AnalyserMessage.decode : Json.Decoder AnalyserMessage := fun v => do
  let found ← record "PhpstanMessage"
    [{ name := "message", defaulted := false
       decode := fun m v => (string v).map fun x => { m with message := some x } },
     { name := "line", defaulted := false
       decode := fun m v => (optional word v).map fun x => { m with line := x } }]
    ({} : AnalyserFields) v
  let message ← required "message" found.message
  .ok { message, line := found.line }

/-- The messages of one file in a report, if there are any. -/
def fileMessages? (report : Json) (file : String) : Except ReportError (Option Json) :=
  match report.get? "files" with
  | none => .error (.missingSection "files")
  | some files => .ok ((files.get? file).bind (·.get? "messages"))

/-- The decoded messages of one file; none if the report has no list for it. -/
def readMessages (decode : Json.Decoder α) (json file : String) : Except ReportError (List α) :=
  match Json.parse json with
  | .error fault => .error (.unreadable fault)
  | .ok report =>
    match fileMessages? report file with
    | .error e => .error e
    | .ok none => .ok []
    | .ok (some messages) => (Json.Decoder.list decode messages).mapError .misshapen

/-- A `phpcs` message as a diagnostic at a point. -/
def CodeSnifferMessage.toDiagnostic (m : CodeSnifferMessage) : Diagnostic :=
  { severity := if m.kind = "ERROR" then .error else .warning
    message := m.message
    span := ⟨m.line - 1, m.column, m.line - 1, m.column⟩
    source := "Drupal: phpcs" }

/-- A `phpstan` message as a diagnostic on its line from the first non-blank character. -/
def AnalyserMessage.toDiagnostic (lines : List (List Char)) (m : AnalyserMessage) : Diagnostic :=
  let line := m.line.getD 1 - 1
  let content := lines[line]?.getD []
  { severity := .error
    message := m.message
    span := ⟨line, (content.takeWhile Text.isBlank).length, line, content.length⟩
    source := "Drupal: phpstan" }

/-- The diagnostics of a `phpcs` report for a file. -/
def codeSniffer (json file : String) : Except ReportError (List Diagnostic) :=
  (readMessages CodeSnifferMessage.decode json file).map (·.map (·.toDiagnostic))

/-- The diagnostics of a `phpstan` report for a file with the given text. -/
def analyser (json file text : String) : Except ReportError (List Diagnostic) :=
  (readMessages AnalyserMessage.decode json file).map
    (·.map (·.toDiagnostic (Text.lines text.toList)))

end SiteAssist.Report
