import SiteAssist.Completion
import SiteAssist.Settings

/-!
# Messages of the server

What the server sends to the editor: the answers to requests, and the notices and requests of its
own. Both are values here; `Notice.params` and `Reply.json` give their JSON, in which absent members
are left out.
-/

namespace SiteAssist.Server

/-- A message that the server sends of itself. -/
inductive Notice where
  /-- a line of the log, at the level of information -/
  | logInfo (text : String)
  /-- a line of the log that only a verbose trace shows -/
  | logTrace (text : String)
  | showWarning (text : String)
  | registerWatchers (id : Nat) (globs : List String)
  | unregisterWatchers (id : Nat)
  deriving Repr, DecidableEq

/-- Why a request is refused. -/
inductive Refusal where
  | notInitialised
  | invalidRequest
  | methodNotFound
  | invalidParams (message : String)
  deriving Repr, DecidableEq

/-- The answer to a request. -/
inductive Reply where
  | capabilities
  | nothing
  | text (text : String)
  | items (items : List Completion)
  | item (item : Json)

/-- The command for the search page of a symbol. -/
def searchCommand : String := "drupal.apiSearchUrl"

/-- The name of the server. -/
def serverName : String := "drupal-lsp"

/-- The version of the server. -/
def serverVersion : String := "0.1.0"

/-! ## Completion items -/

/-- The number of a kind of symbol. -/
def kindNumber : CompletionKind → Nat
  | .text => 1
  | .function => 3
  | .variable => 6
  | .classType => 7
  | .keyword => 14

/-- A documentation text in Markdown. -/
def markdown (text : String) : Json :=
  .mkObject [("kind", .string "markdown"), ("value", .string text)]

/-- A place in a document. -/
def positionJson (line column : Nat) : Json :=
  .mkObject [("line", .nat line), ("character", .nat column)]

/-- The edit that replaces a span of the document. -/
def editJson (s : Report.Span) (newText : String) : Json :=
  .mkObject
    [("range", .mkObject
        [("start", positionJson s.startLine s.startColumn),
         ("end", positionJson s.endLine s.endColumn)]),
     ("newText", .string newText)]

/-- A completion item. What it inserts is an edit if it replaces a span. -/
def itemJson (item : Completion) : Json :=
  let edit := item.replaceRange.bind fun s => item.insertText.map (editJson s)
  let snippet : Option Json := if item.insertFormat = .snippet then some (.nat 2) else none
  .mkObject?
    [("label", some (.string item.label)), ("kind", some (.nat (kindNumber item.kind))),
     ("detail", item.detail.map .string), ("documentation", item.documentation.map markdown),
     ("insertText", if edit.isSome then none else item.insertText.map .string),
     ("textEdit", edit), ("insertTextFormat", snippet),
     ("filterText", item.filterText.map .string), ("data", item.data)]

/-- A client's completion item with a documentation put in. -/
def documentedItem (item : Json) (text : String) : Json :=
  match item with
  | .object members => .mkObject (members ++ [("documentation", markdown text)])
  | v => v

/-! ## Answers and notices -/

/-- The characters that ask for completion when they are typed. -/
def triggerCharacters : List String := ["'", "\"", "$", "|", "\x7b", "("]

/-- What the server can do. -/
def capabilitiesJson : Json :=
  .mkObject
    [("capabilities", .mkObject
        [("textDocumentSync", .mkObject [("openClose", .bool true), ("change", .nat 2)]),
         ("completionProvider", .mkObject
            [("triggerCharacters", .strings triggerCharacters), ("resolveProvider", .bool true)]),
         ("executeCommandProvider", .mkObject [("commands", .strings [searchCommand])]),
         ("workspace", .mkObject
            [("workspaceFolders", .mkObject
                [("supported", .bool true), ("changeNotifications", .bool true)])])]),
     ("serverInfo", .mkObject
        [("name", .string serverName), ("version", .string serverVersion)])]

/-- The JSON of an answer. -/
def Reply.json : Reply → Json
  | .capabilities => capabilitiesJson
  | .nothing => .null
  | .text s => .string s
  | .items offered => .array (offered.map itemJson)
  | .item v => v

/-- The number of a refusal. -/
def Refusal.code : Refusal → Int
  | .notInitialised => -32002
  | .invalidRequest => -32600
  | .methodNotFound => -32601
  | .invalidParams _ => -32602

/-- The wording of a refusal. -/
def Refusal.message : Refusal → String
  | .notInitialised => "Server not initialized"
  | .invalidRequest => "Invalid request"
  | .methodNotFound => "Method not found"
  | .invalidParams text => text

/-- The JSON of a refusal. -/
def Refusal.json (r : Refusal) : Json :=
  .mkObject [("code", .int r.code), ("message", .string r.message)]

/-- The method of file events, which watchers are registered for. -/
def watchedFilesMethod : String := "workspace/didChangeWatchedFiles"

/-- The name of a registration. -/
def registrationName (id : Nat) : String := "drupal-watchers-" ++ toString id

/-- All kinds of file events, as a set of bits. -/
def allEvents : Nat := 7

/-- The method of a notice. -/
def Notice.method : Notice → String
  | .logInfo _ => "window/logMessage"
  | .logTrace _ => "window/logMessage"
  | .showWarning _ => "window/showMessage"
  | .registerWatchers .. => "client/registerCapability"
  | .unregisterWatchers _ => "client/unregisterCapability"

/-- A text with its level. -/
def leveled (level : Nat) (text : String) : Json :=
  .mkObject [("type", .nat level), ("message", .string text)]

/-- The parameters of a notice. -/
def Notice.params : Notice → Json
  | .showWarning text => leveled 2 text
  | .logInfo text => leveled 3 text
  | .logTrace text => leveled 4 text
  | .registerWatchers id globs =>
    let watchers := globs.map fun g =>
      Json.mkObject [("globPattern", .string g), ("kind", .nat allEvents)]
    .mkObject
      [("registrations", .array
          [.mkObject
            [("id", .string (registrationName id)), ("method", .string watchedFilesMethod),
             ("registerOptions", .mkObject [("watchers", .array watchers)])]])]
  | .unregisterWatchers id =>
    .mkObject
      [("unregisterations", .array
          [.mkObject
            [("id", .string (registrationName id)), ("method", .string watchedFilesMethod)]])]

end SiteAssist.Server
