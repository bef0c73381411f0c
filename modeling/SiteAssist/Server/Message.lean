import SiteAssist.Completion
import SiteAssist.Document
import SiteAssist.Server.Item
import SiteAssist.Uri

/-!
# Messages of the client

What an editor sends to the server, by the kind of message. `Message.decode` reads one from its
method and parameters; a method that is not known, or known and not offered, is told apart from
parameters of the wrong shape.
-/

namespace SiteAssist.Server

/-- How an editor wants to be told what happens. -/
inductive Trace where
  | off
  | messages
  | verbose
  deriving Repr, DecidableEq

/-- What the editor says of itself at the start. -/
structure Initialization where
  /-- the URIs of the folders that are open -/
  folders : List String
  rootUri : Option String
  options : Option Json
  trace : Option Trace
  /-- the client lets the server register for file events -/
  dynamicWatchers : Bool

/-- One change of a document: of a range, or of all of it. -/
structure DocumentChange where
  range : Option (Position × Position)
  text : String

/-- A message. -/
inductive Message where
  | start (params : Initialization)
  | initialized
  | shutdown
  | exit
  | didOpen (uri languageId text : String)
  | didChange (uri : String) (changes : List DocumentChange)
  | didClose (uri : String)
  | didChangeWatchedFiles (changes : List (String × Nat))
  | didChangeWorkspaceFolders (removed added : List String)
  | didChangeConfiguration (settings : Json)
  | executeCommand (command : String) (arguments : List Json)
  | completion (uri : String) (position : Position)
  | resolve (item : Json)

/-- Why a message cannot be handled. -/
inductive DecodeError where
  | unknownMethod
  | missingParams
  | unexpectedParams (params : Json)
  | misshapen (error : Json.ShapeError)

namespace Decode

open Json (Decoder ShapeError)

/-- A member that has to be there. -/
def member (name : String) (item : Decoder α) : Decoder α := fun v =>
  match v.get? name with
  | some x => item x
  | none => .error (.missingField name)

/-- A member that may be absent or `null`. -/
def memberIfAny (name : String) (item : Decoder α) : Decoder (Option α) := fun v =>
  match v.get? name with
  | some x => Decoder.optional item x
  | none => .ok none

/-- An object of the given name. -/
def object (name : String) (item : Decoder α) : Decoder α := fun v =>
  match v with
  | .object _ => item v
  | _ => .error (.wrongType v (.record name))

/-- A URI. -/
def uri : Decoder String := fun v => do
  let s ← Decoder.string v
  if Uri.isWellFormed s then .ok s else .error (.wrongType v .string)

/-- A document's URI, in the member `textDocument`. -/
def documentUri : Decoder String :=
  member "textDocument" (object "TextDocumentIdentifier" (member "uri" uri))

/-- A position. -/
def position : Decoder Position := object "Position" fun v => do
  let line ← member "line" Decoder.word v
  let column ← member "character" Decoder.word v
  .ok ⟨line, column⟩

/-- A range, by its two positions. -/
def range : Decoder (Position × Position) := object "Range" fun v => do
  let start ← member "start" position v
  let stop ← member "end" position v
  .ok (start, stop)

/-- A change of a document. -/
def documentChange : Decoder DocumentChange :=
  object "TextDocumentContentChangeEvent" fun v => do
    let range ← memberIfAny "range" range v
    let text ← member "text" Decoder.string v
    .ok { range, text }

/-- A folder, by its URI. It has a name too. -/
def folder : Decoder String := object "WorkspaceFolder" fun v => do
  let folderUri ← member "uri" uri v
  let _ ← member "name" Decoder.string v
  .ok folderUri

/-- A level of tracing. -/
def trace : Decoder Trace :=
  Decoder.variant [("off", .off), ("messages", .messages), ("verbose", .verbose)]

/-- The client registers file events on demand. -/
def dynamicWatchers : Decoder Bool := fun v => do
  let workspace ← memberIfAny "workspace" Decoder.any v
  let watched ← memberIfAny "didChangeWatchedFiles" Decoder.any (workspace.getD .null)
  let registered ← memberIfAny "dynamicRegistration" Decoder.bool (watched.getD .null)
  .ok (registered.getD false)

/-- The parameters of the first message. -/
def initialization : Decoder Initialization := object "InitializeParams" fun v => do
  let dynamicWatchers ← member "capabilities" (object "ClientCapabilities" dynamicWatchers) v
  let options ← memberIfAny "initializationOptions" Decoder.any v
  let rootUri ← memberIfAny "rootUri" uri v
  let trace ← memberIfAny "trace" trace v
  let folders ← memberIfAny "workspaceFolders" (Decoder.list folder) v
  .ok { folders := folders.getD [], rootUri, options, trace, dynamicWatchers }

/-- The parameters of each method. -/
def params? (method : String) : Option (Decoder Message) :=
  match method with
  | "initialize" => some fun v => (initialization v).map .start
  | "initialized" => some fun v =>
      (object "InitializedParams" Decoder.any v).map fun _ => .initialized
  | "textDocument/didOpen" => some <| object "DidOpenTextDocumentParams" <| member "textDocument" <|
      object "TextDocumentItem" fun v => do
        let documentUri ← member "uri" uri v
        let languageId ← member "languageId" Decoder.string v
        let text ← member "text" Decoder.string v
        .ok (.didOpen documentUri languageId text)
  | "textDocument/didChange" => some <| object "DidChangeTextDocumentParams" fun v => do
      let documentUri ← documentUri v
      let changes ← member "contentChanges" (Decoder.list documentChange) v
      .ok (.didChange documentUri changes)
  | "textDocument/didClose" => some <| object "DidCloseTextDocumentParams" fun v =>
      (documentUri v).map .didClose
  | "workspace/didChangeWatchedFiles" => some <| object "DidChangeWatchedFilesParams" fun v =>
      (member "changes" (Decoder.list (object "FileEvent" fun v => do
        let fileUri ← member "uri" uri v
        let kind ← member "type" Decoder.word v
        .ok (fileUri, kind))) v).map .didChangeWatchedFiles
  | "workspace/didChangeWorkspaceFolders" => some <|
      object "DidChangeWorkspaceFoldersParams" <| member "event" <|
        object "WorkspaceFoldersChangeEvent" fun v => do
          let added ← member "added" (Decoder.list folder) v
          let removed ← member "removed" (Decoder.list folder) v
          .ok (.didChangeWorkspaceFolders removed added)
  | "workspace/didChangeConfiguration" => some <| object "DidChangeConfigurationParams" fun v =>
      (member "settings" Decoder.any v).map .didChangeConfiguration
  | "workspace/executeCommand" => some <| object "ExecuteCommandParams" fun v => do
      let command ← member "command" Decoder.string v
      let arguments ← memberIfAny "arguments" (Decoder.list Decoder.any) v
      .ok (.executeCommand command (arguments.getD []))
  | "textDocument/completion" => some <| object "CompletionParams" fun v => do
      let documentUri ← documentUri v
      let position ← member "position" position v
      .ok (.completion documentUri position)
  | "completionItem/resolve" => some fun v => (Item.read v).map .resolve
  | _ => none

end Decode

/-- The methods of the protocol that this server does not offer. -/
def unofferedMethods : List String :=
  ["callHierarchy/incomingCalls", "callHierarchy/outgoingCalls", "codeAction/resolve",
   "codeLens/resolve", "documentLink/resolve", "inlayHint/resolve", "textDocument/codeAction",
   "textDocument/codeLens", "textDocument/colorPresentation", "textDocument/declaration",
   "textDocument/definition", "textDocument/diagnostic", "textDocument/documentColor",
   "textDocument/documentHighlight", "textDocument/documentLink", "textDocument/documentSymbol",
   "textDocument/foldingRange", "textDocument/formatting", "textDocument/hover",
   "textDocument/implementation", "textDocument/inlayHint", "textDocument/inlineValue",
   "textDocument/linkedEditingRange", "textDocument/moniker", "textDocument/onTypeFormatting",
   "textDocument/prepareCallHierarchy", "textDocument/prepareRename",
   "textDocument/prepareTypeHierarchy", "textDocument/rangeFormatting", "textDocument/references",
   "textDocument/rename", "textDocument/selectionRange", "textDocument/semanticTokens/full",
   "textDocument/semanticTokens/full/delta", "textDocument/semanticTokens/range",
   "textDocument/signatureHelp", "textDocument/typeDefinition", "textDocument/willSaveWaitUntil",
   "typeHierarchy/subtypes", "typeHierarchy/supertypes", "workspace/diagnostic",
   "workspace/symbol", "workspace/willCreateFiles", "workspace/willDeleteFiles",
   "workspace/willRenameFiles", "workspaceSymbol/resolve"]

/-- A method that the protocol has, for any message of the present kind. -/
def isKnownMethod (method : String) : Bool :=
  method == "shutdown" || method == "exit" || (Decode.params? method).isSome
    || unofferedMethods.contains method

/-- The message of a method and its parameters. -/
def Message.decode (method : String) (params : Option Json) : Except DecodeError Message :=
  match method, params with
  | "shutdown", none => .ok .shutdown
  | "shutdown", some p => .error (.unexpectedParams p)
  | "exit", none => .ok .exit
  | "exit", some p => .error (.unexpectedParams p)
  | method, params =>
    match Decode.params? method, params with
    | none, _ => .error .unknownMethod
    | some _, none => .error .missingParams
    | some decode, some p => (decode p).mapError .misshapen

/-- A message that asks for an answer. -/
def isRequestMethod (method : String) : Bool :=
  ["initialize", "shutdown", "workspace/executeCommand", "textDocument/completion",
   "completionItem/resolve"].contains method

end SiteAssist.Server
