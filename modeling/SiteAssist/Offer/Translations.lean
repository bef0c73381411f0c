import SiteAssist.Offer.Basic
import SiteAssist.Module
import SiteAssist.Po
import SiteAssist.Snippet

/-!
# Offering translated texts

The texts that a custom module has translations for are offered where one of them is translated: in
calls of code and scripts, in templates, and in the titles of some YAML files. Only the texts of the
module around the file are offered, each once.

A text with placeholders is offered as a snippet, the text as a literal and an argument for each
placeholder. If a literal was opened already, the snippet replaces it from its quotation mark on.
-/

namespace SiteAssist.Offer.Translations

/-- A text and the custom module that translates it. -/
structure Entry where
  moduleRoot : Path
  msgid : String
  deriving Repr, DecidableEq

/-- The catalogs of custom modules. -/
def pattern : String := "web/modules/custom/**/*.po"

/-- The texts of one catalog. The entry without a text, which is the header, is left out. -/
def read (p : Path) (text : String) : Option (List Entry) :=
  match Module.customRoot? p with
  | none => some []
  | some moduleRoot =>
    (Po.parse text).toOption.map fun entries =>
      (entries.filter (·.msgid ≠ "")).map fun e => ⟨moduleRoot, e.msgid⟩

/-- A new cache of texts. -/
def cache : FileCache Entry := newCache pattern read

/-! ## Placeholders and snippets -/

/-- The mark of a placeholder. -/
def isPlaceholderMark (c : Char) : Bool := c == '@' || c == '%' || c == ':'

/-- The placeholders of a text in order: a mark and the word after it. The second argument is
the placeholder being read, backwards. -/
def placeholderRuns : List Char → List Char → List (List Char)
  | [], open' => if open'.length > 1 then [open'.reverse] else []
  | c :: cs, open' =>
    if ¬open'.isEmpty ∧ Text.isWord c then placeholderRuns cs (c :: open')
    else
      let done := if open'.length > 1 then [open'.reverse] else []
      done ++ placeholderRuns cs (if isPlaceholderMark c then [c] else [])

/-- A list without what occurred before. -/
def distinct [DecidableEq α] (as : List α) : List α :=
  (as.foldl (fun acc a => if a ∈ acc then acc else a :: acc) []).reverse

/-- The distinct placeholders of a text. -/
def placeholders (msgid : List Char) : List (List Char) := distinct (placeholderRuns msgid [])

/-- A text with backslashes and a quotation mark escaped. -/
def escapeQuoted (quote : Char) : List Char → List Char
  | [] => []
  | c :: cs =>
    if c = '\\' ∨ c = quote then '\\' :: c :: escapeQuoted quote cs
    else c :: escapeQuoted quote cs

/-- A text as a literal in a snippet. -/
def literal (quote : Char) (msgid : List Char) : List Char :=
  quote :: Snippet.escape (escapeQuoted quote msgid) ++ [quote]

/-- The arguments for placeholders: each name, a separator and its tab stop. -/
def arguments (quote : Char) (separator : List Char) : Nat → List (List Char) → List (List Char)
  | _, [] => []
  | n, p :: ps =>
    (quote :: p ++ quote :: separator ++ '$' :: (toString n).toList)
      :: arguments quote separator (n + 1) ps

/-- The snippet for a text with placeholders in a language. -/
def snippet (language : Language) (quote : Char) (msgid : List Char) : List Char :=
  let arguments (separator : List Char) : List Char :=
    List.intercalate [',', ' '] (arguments quote separator 1 (placeholders msgid))
  match language with
  | .php => literal quote msgid ++ ", [".toList ++ arguments " => ".toList ++ [']']
  | .twig => literal quote msgid ++ "|t(\x7b".toList ++ arguments ": ".toList ++ "\x7d)".toList
  | _ => literal quote msgid ++ ", \x7b".toList ++ arguments ": ".toList ++ ['\x7d']

/-- The completion of a text. -/
def completion (language : Language) (quote : Char) (msgid : String) : Completion :=
  let plain : Completion := { label := msgid, kind := .text, detail := some "translation" }
  if (placeholders msgid.toList).isEmpty ∨ language = .yaml then plain
  else plain.withSnippet (String.ofList (snippet language quote msgid.toList))

/-! ## Requests -/

/-- The YAML files whose titles are translated. -/
def titledFiles : List String :=
  [".routing.yml", ".links.menu.yml", ".links.task.yml", ".links.action.yml"]

/-- What stands before a text that is translated, in the language of a request. -/
def callSites (r : Request) : List (List Char) :=
  match r.language with
  | .php => ["$this->t(", " t(", "formatPlural(", "TranslatableMarkup("].map String.toList
  | .javaScript => ["Drupal.t(", "Drupal.formatPlural("].map String.toList
  | .twig => ["\x7b\x7b", "\x7b% trans"].map String.toList
  | .yaml =>
    if titledFiles.any fun e => (Text.stripSuffix? e.toList r.fileName.toList).isSome then
      ["_title: ", "title: "].map String.toList
    else []
  | .other => []

/-- An item that replaces the literal begun at a column, if it is a snippet. -/
def replacing (r : Request) (opened : Option (Char × Nat)) (item : Completion) : Completion :=
  match opened, item.insertText with
  | some (quote, column), some _ =>
    { item with
      replaceRange := some ⟨r.line, column, r.line, r.column⟩
      filterText := some (String.ofList (quote :: item.label.toList)) }
  | _, _ => item

/-- The texts of one module, each once. -/
def textsOf (moduleRoot : Path) (known : List Entry) : List String :=
  distinct ((known.filter (·.moduleRoot.same moduleRoot)).map (·.msgid))

/-- The texts offered at a request, given those that are known. -/
def offered (known : List Entry) (r : Request) : List Completion :=
  let s := r.linePrefix.toList
  match Module.customRoot? r.path, LinePrefix.endOfLast? s (callSites r) with
  | some moduleRoot, some callEnd =>
    let opened := LinePrefix.openQuote? s callEnd
    let quote := (opened.map Prod.fst).getD '\''
    (textsOf moduleRoot known).map fun msgid =>
      replacing r opened (completion r.language quote msgid)
  | _, _ => []

end SiteAssist.Offer.Translations
