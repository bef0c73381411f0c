import SiteAssist.Json.Decoder
import SiteAssist.Report.Diagnostic

/-!
# Completion items

An item of the completion list: its label and kind, what is shown beside it, what is inserted and
where, and a payload that comes back when the item is resolved. `renamed` replaces the first
occurrence of a text in what the item inserts and documents.

`decode` reads an item back from JSON, `toJson` writes it.
-/

namespace SiteAssist

/-- The kind of a completed symbol. -/
inductive CompletionKind where
  | function
  | keyword
  | classType
  | variable
  | text
  deriving Repr, DecidableEq

/-- The name of a kind. -/
def CompletionKind.name : CompletionKind → String
  | .function => "Function"
  | .keyword => "Keyword"
  | .classType => "Class"
  | .variable => "Variable"
  | .text => "Text"

/-- All kinds. -/
def CompletionKind.all : List CompletionKind := [.function, .keyword, .classType, .variable, .text]

/-- How inserted text is to be understood. -/
inductive InsertFormat where
  | plain
  | snippet
  deriving Repr, DecidableEq

/-- The name of a format. -/
def InsertFormat.name : InsertFormat → String
  | .plain => "PlainText"
  | .snippet => "Snippet"

/-- A completion item. -/
structure Completion where
  label : String
  kind : CompletionKind
  detail : Option String := none
  documentation : Option String := none
  insertText : Option String := none
  insertFormat : InsertFormat := .plain
  filterText : Option String := none
  replaceRange : Option Report.Span := none
  data : Option Json := none

namespace Completion

/-- The item with a snippet to insert. -/
def withSnippet (item : Completion) (snippet : String) : Completion :=
  { item with insertText := some snippet, insertFormat := .snippet }

/-- The item with a text replaced once in what it inserts and once in its documentation. -/
def renamed (item : Completion) (search replacement : String) : Completion :=
  let once (s : String) : String :=
    String.ofList (Text.replaceFirst search.toList replacement.toList s.toList)
  { item with
    insertText := item.insertText.map once
    documentation := item.documentation.map once }

/-- A span as the list of its four numbers. -/
def spanJson (s : Report.Span) : Json :=
  .array [.nat s.startLine, .nat s.startColumn, .nat s.endLine, .nat s.endColumn]

/-- The item as JSON. -/
def toJson (item : Completion) : Json :=
  .mkObject
    [("label", .string item.label), ("kind", .string item.kind.name),
     ("detail", .ofOption .string item.detail),
     ("documentation", .ofOption .string item.documentation),
     ("insert_text", .ofOption .string item.insertText),
     ("insert_format", .string item.insertFormat.name),
     ("filter_text", .ofOption .string item.filterText),
     ("replace_range", .ofOption spanJson item.replaceRange),
     ("data", item.data.getD .null)]

/-- The fields of an item as they are found. -/
structure Fields where
  label : Option String := none
  kind : Option CompletionKind := none
  insertFormat : Option InsertFormat := none
  rest : Completion := { label := "", kind := .text }

/-- Four numbers as a span. -/
def spanOf? : List Nat → Option Report.Span
  | [a, b, c, d] => some ⟨a, b, c, d⟩
  | _ => none

open Json.Decoder in
/-- The fields of an item, in the order of its array form. -/
def fields : List (Json.Decoder.Field Fields) :=
  let text (name : String) (put : Completion → Option String → Completion) :
      Json.Decoder.Field Fields :=
    { name, defaulted := false
      decode := fun f v => (optional string v).map fun x => { f with rest := put f.rest x } }
  [{ name := "label", defaulted := false
     decode := fun f v => (string v).map fun x => { f with label := some x } },
   { name := "kind", defaulted := false
     decode := fun f v => (variant (CompletionKind.all.map fun k => (k.name, k)) v).map fun x =>
      { f with kind := some x } },
   text "detail" fun c x => { c with detail := x },
   text "documentation" fun c x => { c with documentation := x },
   text "insert_text" fun c x => { c with insertText := x },
   { name := "insert_format", defaulted := false
     decode := fun f v =>
      (variant ([InsertFormat.plain, .snippet].map fun k => (k.name, k)) v).map fun x =>
        { f with insertFormat := some x } },
   text "filter_text" fun c x => { c with filterText := x },
   { name := "replace_range", defaulted := false
     decode := fun f v => (optional (tuple 4 word) v).map fun x =>
      { f with rest := { f.rest with replaceRange := x.bind spanOf? } } },
   { name := "data", defaulted := false
     decode := fun f v => (optional any v).map fun x =>
      { f with rest := { f.rest with data := x } } }]

open Json.Decoder in
/-- An item from JSON: label, kind and format are needed, and no others. -/
def decode : Json.Decoder Completion := fun v => do
  let found ← record "Completion" fields {} v
  let label ← required "label" found.label
  let kind ← required "kind" found.kind
  let insertFormat ← required "insert_format" found.insertFormat
  .ok { found.rest with label, kind, insertFormat }

end Completion

end SiteAssist
