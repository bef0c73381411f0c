import SiteAssist.Offer.Basic
import SiteAssist.DocComment
import SiteAssist.Php.Declaration

/-!
# Offering template functions and filters

Templates may call a fixed set of functions and filters. Each is implemented by a method, its
callback, whose documentation becomes that of the item only when the item is resolved. The payload
of an item names its callback and the root of the site that offered it.
-/

namespace SiteAssist.Offer.Templates

/-- A function or filter: its name, the snippet that is inserted, and its callback, whose class
stands in the namespace of templates unless it starts with a backslash. -/
structure TemplateSymbol where
  label : String
  insert : String
  callback : String
  deriving Repr, DecidableEq

/-- The functions of templates. -/
def functions : List TemplateSymbol :=
  [⟨"render_var", "render_var($\x7b1:any\x7d)", "TwigExtension::renderVar"⟩,
   ⟨"url", "url($\x7b1:name\x7d)", "TwigExtension::getUrl"⟩,
   ⟨"path", "path('$\x7b1:name\x7d')", "TwigExtension::getPath"⟩,
   ⟨"link", "link($\x7b1:text\x7d, $\x7b2:uri\x7d)", "TwigExtension::getLink"⟩,
   ⟨"file_url", "file_url($\x7b1:path\x7d)", "TwigExtension::getFileUrl"⟩,
   ⟨"attach_library", "attach_library('$\x7b1:library\x7d')", "TwigExtension::attachLibrary"⟩,
   ⟨"active_theme_path", "active_theme_path()", "TwigExtension::getActiveThemePath"⟩,
   ⟨"active_theme", "active_theme()", "TwigExtension::getActiveTheme"⟩,
   ⟨"create_attribute", "create_attribute($\x7b1:attributes\x7d)",
    "TwigExtension::createAttribute"⟩,
   ⟨"dump", "dump($\x7b1:any\x7d)", "\\Drupal\\Core\\Template\\DebugExtension::dump"⟩]

/-- The filters of templates. -/
def filters : List TemplateSymbol :=
  [⟨"placeholder", "placeholder", "TwigExtension::escapePlaceholder"⟩,
   ⟨"drupal_escape", "drupal_escape", "TwigExtension::escapeFilter"⟩,
   ⟨"safe_join", "safe_join", "TwigExtension::safeJoin"⟩,
   ⟨"without", "without", "TwigExtension::withoutFilter"⟩,
   ⟨"clean_class", "clean_class", "\\Drupal\\Component\\Utility\\Html::getClass"⟩,
   ⟨"clean_id", "clean_id", "\\Drupal\\Component\\Utility\\Html::getId"⟩,
   ⟨"render", "render", "TwigExtension::renderVar"⟩,
   ⟨"format_date", "format_date", "\\Drupal\\Core\\Datetime\\DateFormatterInterface::format"⟩,
   ⟨"add_suggestion", "add_suggestion", "TwigExtension::suggestThemeHook"⟩]

/-- The namespace of template callbacks. -/
def callbackNamespace : String := "\\Drupal\\Core\\Template\\"

/-- The callback of a symbol with its namespace. -/
def TemplateSymbol.fullCallback (s : TemplateSymbol) : String :=
  if s.callback.toList.head? = some '\\' then s.callback else callbackNamespace ++ s.callback

/-- The completion of a symbol in a site. -/
def completion (root : Path) (detail insert : String) (s : TemplateSymbol) : Completion :=
  { ({ label := s.label, kind := .function, detail := some detail } : Completion).withSnippet
      insert with
    data := some (.mkObject
      [("root", .string root.text), ("callback", .string s.fullCallback)]) }

/-- What is inserted for a function: inside an expression the call, else an expression of it. -/
def functionText (inside : Bool) (s : TemplateSymbol) : String :=
  if inside then s.insert else "\x7b\x7b " ++ s.insert ++ " \x7d\x7d"

/-- The functions and filters offered at a request. Filters need a bar on the line. -/
def offered (root : Path) (r : Request) : List Completion :=
  if r.language ≠ .twig ∨ ¬r.path.under root then []
  else
    let line := r.linePrefix.toList
    let inside := LinePrefix.inExpression line
    let offeredFunctions := functions.map fun s =>
      completion root "function (Drupal)" (functionText inside s) s
    let offeredFilters :=
      if line.contains '|' then
        filters.map fun s => completion root "filter (Drupal)" s.insert s
      else []
    offeredFunctions ++ offeredFilters

/-! ## Resolving -/

/-- A text of an item's payload, by its key. -/
def payload? (item : Completion) (key : String) : Option String :=
  (item.data.bind (·.get? key)).bind Json.asString?

/-- An item was offered by the site of this root. -/
def owns (root : Path) (item : Completion) : Bool := payload? item "root" == some root.text

/-- The file that declares a class. -/
def classPath (root : Path) (className : List Char) : Path :=
  let parts := (className.dropWhile (· = '\\')).splitOn '\\'
  (parts.foldl (fun p part => p.join (String.ofList part)) (root.join "web/core/lib")).withExtension
    "php"

/-- The methods of class files that have been read. -/
abbrev Outlines := List (Path × List Php.Method)

/-- The methods of a class file, read once. A file that cannot be read is tried again. -/
def methodsAt (tree : FileTree) (outlines : Outlines) (p : Path) :
    Option (List Php.Method) × Outlines :=
  match outlines.find? (·.1.same p) with
  | some (_, methods) => (some methods, outlines)
  | none =>
    match tree.readText? p with
    | none => (none, outlines)
    | some text =>
      let methods := Php.methodsOf (Php.outline text)
      (some methods, outlines ++ [(p, methods)])

/-- A callback's class and method. -/
def callbackOf? (item : Completion) : Option (List Char × List Char) :=
  (payload? item "callback").bind fun c => Text.cutFirst? [':', ':'] c.toList

/-- An item with the documentation of its callback, if it has none yet and there is any. -/
def resolve (tree : FileTree) (root : Path) (outlines : Outlines) (item : Completion) :
    Completion × Outlines :=
  match item.documentation, callbackOf? item with
  | none, some (className, method) =>
    let (methods, outlines) := methodsAt tree outlines (classPath root className)
    let doc := methods.bind fun ms => Php.Method.docIn? ms (String.ofList method)
    match doc.bind DocComment.summary? with
    | some summary => ({ item with documentation := some summary }, outlines)
    | none => (item, outlines)
  | _, _ => (item, outlines)

end SiteAssist.Offer.Templates
