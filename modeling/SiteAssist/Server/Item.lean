import SiteAssist.Json.Decoder

/-!
# Completion items of the client

A client sends an item back to have it resolved. It is read in the shape that the protocol gives it, and
the server goes on with what it has read: members that the protocol does not have are left out, and so are
those that need not be there and are `null`.
-/

namespace SiteAssist.Server.Item

open Json (Decoder ShapeError)

/-- A shape of JSON: it gives a value as it is read. -/
abbrev Shape := Decoder Json

/-- A text. -/
def text : Shape := fun v => (Decoder.string v).map .string

/-- A truth value. -/
def flag : Shape := fun v => (Decoder.bool v).map .bool

/-- A natural number of 32 bits. -/
def word : Shape := fun v => (Decoder.word v).map .nat

/-- An integer of 32 bits. -/
def integer : Shape := fun v => (Decoder.integer v).map .int

/-- A list. -/
def list (item : Shape) : Shape := fun v => (Decoder.list item v).map .array

/-- One of two shapes, the first one that fits. -/
def either (name : String) (first second : Shape) : Shape := fun v =>
  match first v, second v with
  | .ok w, _ => .ok w
  | .error _, .ok w => .ok w
  | .error _, .error _ => .error (.noVariant name)

/-- A member of an object: its name, whether it has to be there, and its shape. -/
structure Slot where
  name : String
  needed : Bool
  shape : Shape

/-- What is kept of a member, if anything. -/
def keep (slots : List Slot) (m : String × Json) : Except ShapeError (Option (String × Json)) :=
  match slots.find? (·.name == m.1) with
  | none => .ok none
  | some slot =>
    if ¬slot.needed ∧ m.2.isNull then .ok none else (slot.shape m.2).map fun v => some (m.1, v)

/-- An object of the given name, with what is kept of its members. -/
def object (name : String) (slots : List Slot) : Shape
  | .object members => do
    let kept ← members.mapM (keep slots)
    let members := kept.filterMap id
    match slots.find? fun slot => slot.needed && (members.lookup slot.name).isNone with
    | some slot => .error (.missingField slot.name)
    | none => .ok (.object members)
  | v => .error (.wrongType v (.record name))

/-- A place in a document. -/
def position : Shape := object "Position" [⟨"line", true, word⟩, ⟨"character", true, word⟩]

/-- A stretch of a document. -/
def range : Shape := object "Range" [⟨"start", true, position⟩, ⟨"end", true, position⟩]

/-- An edit of one stretch. -/
def edit : Shape := object "TextEdit" [⟨"range", true, range⟩, ⟨"newText", true, text⟩]

/-- An edit that inserts or replaces, as the user likes. -/
def insertReplaceEdit : Shape :=
  object "InsertReplaceEdit"
    [⟨"newText", true, text⟩, ⟨"insert", true, range⟩, ⟨"replace", true, range⟩]

/-- The language of a documentation. -/
def markupKind : Shape := fun v =>
  (Decoder.variant [("plaintext", Json.string "plaintext"), ("markdown", .string "markdown")] v)

/-- A documentation: a text, with or without its language. -/
def documentation : Shape :=
  either "Documentation" text
    (object "MarkupContent" [⟨"kind", true, markupKind⟩, ⟨"value", true, text⟩])

/-- What is shown beside a label. -/
def labelDetails : Shape :=
  object "CompletionItemLabelDetails" [⟨"detail", false, text⟩, ⟨"description", false, text⟩]

/-- A command of the editor. -/
def command : Shape :=
  object "Command"
    [⟨"title", true, text⟩, ⟨"command", true, text⟩, ⟨"arguments", false, list Decoder.any⟩]

/-- The members of a completion item. -/
def slots : List Slot :=
  [⟨"label", true, text⟩, ⟨"labelDetails", false, labelDetails⟩, ⟨"kind", false, integer⟩,
   ⟨"detail", false, text⟩, ⟨"documentation", false, documentation⟩, ⟨"deprecated", false, flag⟩,
   ⟨"preselect", false, flag⟩, ⟨"sortText", false, text⟩, ⟨"filterText", false, text⟩,
   ⟨"insertText", false, text⟩, ⟨"insertTextFormat", false, integer⟩,
   ⟨"insertTextMode", false, integer⟩,
   ⟨"textEdit", false, either "CompletionTextEdit" edit insertReplaceEdit⟩,
   ⟨"additionalTextEdits", false, list edit⟩, ⟨"command", false, command⟩,
   ⟨"commitCharacters", false, list text⟩, ⟨"data", false, Decoder.any⟩,
   ⟨"tags", false, list integer⟩]

/-- A completion item as it is read. -/
def read : Shape := object "CompletionItem" slots

end SiteAssist.Server.Item
