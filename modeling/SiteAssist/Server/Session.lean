import SiteAssist.Server.Message
import SiteAssist.Server.Reply
import SiteAssist.Site

/-!
# A session of the server

A session holds the documents that are open, the sites among the open folders, and the settings. It
goes through four phases: requests are refused until the client has initialised it, it works until
the client shuts it down, and it answers nothing after the exit.

`Session.handle` takes one message and gives the session after it, the notices sent to the client in
order, and the answer. `Session.receive` is the same for a method and parameters as they come, with
the refusals of the present phase.
-/

namespace SiteAssist.Server

/-- The phase of a session. -/
inductive Phase where
  | uninitialised
  | running
  | shutDown
  | exited
  deriving Repr, DecidableEq

/-- A session. -/
structure Session where
  phase : Phase := .uninitialised
  documents : List (String × Document) := []
  /-- the sites that are live, each watched under its number -/
  sites : List Site := []
  /-- the folders that are open -/
  folders : List Path := []
  settings : Settings := {}
  /-- the tools that the user has been warned of -/
  warned : List Tool := []
  trace : Trace := .off
  dynamicWatchers : Bool := false
  /-- the number of the next site -/
  nextId : Nat := 1

namespace Session

/-- A session with the notices sent on the way to it. -/
abbrev Sent (α : Type) := α × List Notice

/-- A line for a verbose trace. -/
def traceLine (s : Session) (text : String) : List Notice :=
  if s.trace = .verbose then [.logTrace text] else []

/-! ## Documents -/

/-- The open document of a URI. -/
def document? (s : Session) (uri : String) : Option Document := s.documents.lookup uri

/-- The session without a document. -/
def closed (s : Session) (uri : String) : Session :=
  { s with documents := s.documents.filter fun (u, _) => u ≠ uri }

/-- The session with a document put in place of any other of its URI. -/
def opened (s : Session) (uri : String) (d : Document) : Session :=
  { s with documents := (uri, d) :: (s.closed uri).documents }

/-- A document after one change. -/
def changed (d : Document) (c : DocumentChange) : Document :=
  match c.range with
  | some (start, stop) => d.edited start stop c.text
  | none => d.replaced c.text

/-- The session after changes to a document, if it is open. -/
def documentChanged (s : Session) (uri : String) (changes : List DocumentChange) : Session :=
  match s.document? uri with
  | some d => s.opened uri (changes.foldl changed d)
  | none => s

/-! ## Sites -/

/-- The warning for one tool of a site: it is enabled, missing and not yet warned of. -/
def checkTool (tree : FileTree) (site : Site) (s : Session) (tool : Tool) : Sent Session :=
  let wanted := s.settings.tool tool
  if ¬wanted.enabled then (s, [])
  else match wanted.executable tree site.root tool with
    | .ok _ => (s, [])
    | .error p =>
      if s.warned.contains tool then (s, [])
      else ({ s with warned := tool :: s.warned },
        [.showWarning ("Drupal: " ++ tool.missingMessage p)])

/-- A step over each of some values, the notices in order. -/
def forEach (step : Session → α → Sent Session) : Session → List α → Sent Session
  | s, [] => (s, [])
  | s, a :: as =>
    let (s, sent) := step s a
    let (s, more) := forEach step s as
    (s, sent ++ more)

/-- The warnings for the tools of a site. -/
def checkTools (tree : FileTree) (s : Session) (site : Site) : Sent Session :=
  forEach (checkTool tree site) s Tool.all

/-- The registration for the files of a site. -/
def registration (s : Session) (site : Site) : List Notice :=
  if s.dynamicWatchers then
    [.registerWatchers site.id (site.watchPatterns.map fun p => (site.root.join p).text)]
  else []

/-- The end of a registration. -/
def unregistration (s : Session) (site : Site) : List Notice :=
  if s.dynamicWatchers then [.unregisterWatchers site.id] else []

/-- What is told of a new site. -/
def announce (tree : FileTree) (s : Session) (site : Site) : Sent Session :=
  let (after, warnings) := s.checkTools tree site
  (after,
    s.traceLine ("Drupal workspace ready: " ++ site.root.text) ++ s.registration site ++ warnings)

/-- A folder is the root of a live site. -/
def isLive (s : Session) (folder : Path) : Bool := s.sites.any (·.root.same folder)

/-- The session with the sites among some folders that are not live yet. -/
def addSites (tree : FileTree) (s : Session) (folders : List Path) : Sent Session :=
  let located := Site.locate tree s.nextId (folders.filter (!s.isLive ·))
  let added := located.map (·.populate tree)
  let (s, sent) := forEach (announce tree) { s with nextId := s.nextId + added.length } added
  ({ s with sites := s.sites ++ added }, sent)

/-- The session without the sites of some folders. -/
def removeSites (s : Session) (folders : List Path) : Sent Session :=
  let isRemoved (site : Site) : Bool := folders.any (site.root.same ·)
  ({ s with sites := s.sites.filter (!isRemoved ·) },
    (s.sites.filter isRemoved).flatMap s.unregistration)

/-- The live sites that a file belongs to. -/
def sitesOf (s : Session) (p : Path) : List Site := s.sites.filter (·.hasFile p)

/-- The session with one site replaced. -/
def withSite (s : Session) (site : Site) : Session :=
  { s with sites := s.sites.map fun other => if other.same site then site else other }

/-- The paths of file URIs. -/
def pathsOf (uris : List String) : List Path := uris.filterMap Uri.toPath?

/-- The session after its folders have changed. -/
def foldersChanged (tree : FileTree) (s : Session) (removed added : List Path) : Sent Session :=
  let folders := s.folders.filter (fun f => !removed.any (·.same f)) ++ added
  let (s, sent) := removeSites { s with folders } removed
  let (s, more) := s.addSites tree added
  (s, sent ++ more)

/-- The event of a number. -/
def eventOf? : Nat → Option FileEvent
  | 1 => some .created
  | 2 => some .changed
  | 3 => some .deleted
  | _ => none

/-- The file events that can be understood. -/
def eventsOf (changes : List (String × Nat)) : List (Path × FileEvent) :=
  changes.filterMap fun (uri, kind) =>
    (Uri.toPath? uri).bind fun p => (eventOf? kind).map (p, ·)

/-- Sites that are all told of one event. -/
def tell (tree : FileTree) (sites : List Site) (event : Path × FileEvent) : List Site :=
  sites.map (·.onEvent tree event.1 event.2)

/-- The session after file events, each told to all sites before the next. -/
def filesChanged (tree : FileTree) (s : Session) (events : List (Path × FileEvent)) :
    Sent Session :=
  if events.isEmpty then (s, [])
  else
    ({ s with sites := events.foldl (tell tree) s.sites },
      s.traceLine ("didChangeWatchedFiles: " ++ toString events.length ++ " changes"))

/-- The session after a change of the settings. Settings of a wrong shape change nothing. -/
def configured (tree : FileTree) (s : Session) (payload : Json) : Sent Session :=
  match Settings.ofJson payload with
  | .error _ => (s, [])
  | .ok settings =>
    forEach (checkTools tree) { s with settings } s.sites

/-! ## Requests -/

/-- The session after it has been initialised. Options of a wrong shape are ignored. -/
def initialised (s : Session) (params : Initialization) : Session :=
  let folders := pathsOf params.folders
  let folders := if folders.isEmpty then pathsOf params.rootUri.toList else folders
  let settings := match params.options.map Settings.ofJson with
    | some (.ok settings) => settings
    | _ => s.settings
  { s with
    folders
    settings
    trace := params.trace.getD s.trace
    dynamicWatchers := params.dynamicWatchers
    phase := .running }

/-- The completions at a place of a document, or nothing where none can be. -/
def completions (tree : FileTree) (s : Session) (uri : String) (position : Position) :
    Sent Reply :=
  let request? : Option Request := do
    let path ← Uri.toPath? uri
    let d ← s.document? uri
    let line ← d.linePrefixAt? position
    some (Request.at path d.language line position.line)
  match request? with
  | none => (.nothing, [])
  | some request =>
    match s.sitesOf request.path with
    | [] => (.nothing, [])
    | sites =>
      let items := sites.flatMap (·.complete tree request)
      (if items.isEmpty then .nothing else .items items,
        s.traceLine
          ("completion: " ++ toString items.length ++ " items for " ++ uri))

/-- An item with its documentation, by the site that offered it. -/
def resolved (tree : FileTree) (s : Session) (item : Json) : Reply × Session :=
  let unchanged := Reply.item item
  let data := (item.get? "data").filter (!·.isNull)
  let documented := ((item.get? "documentation").filter (!·.isNull)).isSome
  let label := ((item.get? "label").bind Json.asString?).getD ""
  let pending : Completion := { label, kind := .function, data }
  if documented ∨ data.isNone then (unchanged, s)
  else match s.sites.find? (·.owns pending) with
    | none => (unchanged, s)
    | some site =>
      let (found, site) := site.resolve tree pending
      let s := s.withSite site
      match found.documentation with
      | some text => (.item (documentedItem item text), s)
      | none => (unchanged, s)

/-- The answer to a command. -/
def executed (tree : FileTree) (s : Session) (command : String) (arguments : List Json) :
    Except Refusal (Reply × Session) :=
  if command ≠ searchCommand then .error (.invalidParams ("unknown command " ++ command))
  else match arguments with
    | .string uri :: .string symbol :: _ =>
      match (Uri.toPath? uri).bind fun p => (s.sitesOf p).head? with
      | some site =>
        let (url, site) := site.apiSearchUrl tree symbol
        .ok (.text url, s.withSite site)
      | none => .ok (.text (Site.searchUrl Site.defaultVersion symbol), s)
    | _ => .error (.invalidParams "expected [documentUri, symbol]")

/-- What comes of a message: the session after it, the notices sent, and the answer. -/
structure Outcome where
  session : Session
  sent : List Notice := []
  answer : Except Refusal Reply := .ok .nothing

/-- An outcome without an answer of note. -/
def Outcome.ofSent (r : Sent Session) : Outcome := { session := r.1, sent := r.2 }

/-- The outcome of a message that is let through. -/
def handle (tree : FileTree) (s : Session) : Message → Outcome
  | .start params => { session := s.initialised params, answer := .ok .capabilities }
  | .initialized =>
    let (after, sent) := s.addSites tree s.folders
    { session := after, sent := .logInfo (serverName ++ " server initialized") :: sent }
  | .shutdown => { session := { s with sites := [], phase := .shutDown } }
  | .exit => { session := { s with phase := .exited } }
  | .didOpen uri languageId text =>
    { session := s.opened uri (.opened text languageId), sent := s.traceLine ("didOpen: " ++ uri) }
  | .didChange uri changes => { session := s.documentChanged uri changes }
  | .didClose uri => { session := s.closed uri }
  | .didChangeWatchedFiles changes => .ofSent (s.filesChanged tree (eventsOf changes))
  | .didChangeWorkspaceFolders removed added =>
    .ofSent (s.foldersChanged tree (pathsOf removed) (pathsOf added))
  | .didChangeConfiguration payload => .ofSent (s.configured tree payload)
  | .executeCommand command arguments =>
    match s.executed tree command arguments with
    | .ok (reply, after) => { session := after, answer := .ok reply }
    | .error refusal => { session := s, answer := .error refusal }
  | .completion uri position =>
    let (reply, sent) := s.completions tree uri position
    { session := s, sent, answer := .ok reply }
  | .resolve item =>
    let (reply, after) := s.resolved tree item
    { session := after, answer := .ok reply }

/-! ## Phases -/

/-- Why a method is refused in a phase, if it is. -/
def refusal? (phase : Phase) (method : String) : Option Refusal :=
  if ¬isKnownMethod method then some .methodNotFound
  else if method = "exit" then none
  else match phase with
    | .uninitialised => if method = "initialize" then none else some .notInitialised
    | .running => if method = "initialize" then some .invalidRequest else none
    | _ => some .invalidRequest

/-- The refusal of a message that cannot be handled. -/
def refusalOf : DecodeError → Refusal
  | .unknownMethod => .methodNotFound
  | .missingParams => .invalidParams "Missing params field"
  | .unexpectedParams p => .invalidParams ("Unexpected params: " ++ p.compress)
  | .misshapen e => .invalidParams e.message

/-- The session once a message has come in, however it is made: its method alone ends the
running phase. -/
def entered (s : Session) (method : String) : Session :=
  if method = "shutdown" then { s with phase := .shutDown }
  else if method = "exit" then { s with phase := .exited }
  else s

/-- The outcome of a method and its parameters, as they come in. -/
def receive (tree : FileTree) (s : Session) (method : String) (params : Option Json) : Outcome :=
  match refusal? s.phase method with
  | some refusal => { session := s, answer := .error refusal }
  | none =>
    let s := s.entered method
    match Message.decode method params with
    | .error e => { session := s, answer := .error (refusalOf e) }
    | .ok m =>
      let outcome := s.handle tree m
      if isRequestMethod method then outcome
      else { outcome with answer := .error .invalidRequest }

end Session

end SiteAssist.Server
