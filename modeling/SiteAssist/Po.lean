import SiteAssist.Text.Class
import SiteAssist.Text.Basic

/-!
# Gettext catalogs

A PO catalog is read line by line into its entries. A line is blank, a comment, a keyword with a
quoted string, or a quoted string alone that continues the field of the line before it. A blank line
ends an entry; so does a comment, a `msgctxt` or a `msgid` once the entry has its `msgid`. What was
collected without a `msgid` waits for one across comments and is dropped at a blank line.

The first line that is none of these stops the reading; `Po.Error` says which line and why.
-/

namespace SiteAssist.Po

/-- A translation unit. -/
structure Entry where
  context : Option String
  msgid : String
  plural : Option String
  msgstr : List String
  deriving Repr, DecidableEq

/-- What is wrong with a line. -/
inductive Problem where
  | orphanContinuation
  | missingString
  | unterminated
  | danglingEscape
  | badPluralIndex (index : String)
  | unknownKeyword (keyword : String)
  deriving Repr, DecidableEq

/-- A problem and the number of its line, counted from one. -/
structure Error where
  line : Nat
  problem : Problem
  deriving Repr, DecidableEq

/-- The wording of a problem. -/
def Problem.message : Problem → String
  | .orphanContinuation => "string continuation without a keyword"
  | .missingString => "expected keyword followed by a string"
  | .unterminated => "unterminated string"
  | .danglingEscape => "dangling escape"
  | .badPluralIndex n => "invalid plural index `" ++ n ++ "`"
  | .unknownKeyword k => "unknown keyword `" ++ k ++ "`"

/-- The wording of an error. -/
def Error.message (e : Error) : String :=
  "invalid PO file at line " ++ toString e.line ++ ": " ++ e.problem.message

/-- The field that a string belongs to. -/
inductive Field where
  | context
  | msgid
  | plural
  | msgstr (index : Nat)
  deriving Repr, DecidableEq

/-- The greatest index of a plural form. -/
def maxPluralIndex : Nat := 16

/-- The fields collected so far for the next entry. -/
structure Pending where
  context : Option (List Char) := none
  msgid : Option (List Char) := none
  plural : Option (List Char) := none
  msgstr : List (List Char) := []
  deriving Repr, DecidableEq

/-- Text added to one of a list of strings, which grows to have it. -/
def appendAt (text : List Char) : Nat → List (List Char) → List (List Char)
  | 0, [] => [text]
  | 0, s :: ss => (s ++ text) :: ss
  | n + 1, [] => [] :: appendAt text n []
  | n + 1, s :: ss => s :: appendAt text n ss

/-- Text added to a field. -/
def Pending.append (p : Pending) (field : Field) (text : List Char) : Pending :=
  match field with
  | .context => { p with context := some (p.context.getD [] ++ text) }
  | .msgid => { p with msgid := some (p.msgid.getD [] ++ text) }
  | .plural => { p with plural := some (p.plural.getD [] ++ text) }
  | .msgstr n => { p with msgstr := appendAt text n p.msgstr }

/-- The entry of the fields collected, which need a `msgid`. -/
def Pending.entry? (p : Pending) : Option Entry :=
  p.msgid.map fun id =>
    { context := p.context.map String.ofList
      msgid := String.ofList id
      plural := p.plural.map String.ofList
      msgstr := p.msgstr.map String.ofList }

/-- The characters between the quotes, escapes decoded. An escape that is not known stands for
itself, backslash included. -/
def decode : List Char → Except Problem (List Char)
  | [] => .ok []
  | ['\\'] => .error .danglingEscape
  | '\\' :: c :: rest =>
    let decoded := match c with
      | 'n' => ['\n']
      | 't' => ['\t']
      | 'r' => ['\r']
      | '"' => ['"']
      | '\\' => ['\\']
      | c => ['\\', c]
    (decode rest).map (decoded ++ ·)
  | c :: rest => (decode rest).map (c :: ·)

/-- The text of a quoted string: two quotes at least, one at each end. -/
def unquote (text : List Char) : Except Problem (List Char) :=
  match (Text.stripPrefix? ['"'] text).bind (Text.stripSuffix? ['"']) with
  | some inner => decode inner
  | none => .error .unterminated

/-- The field that a keyword names. -/
def fieldOf (keyword : List Char) : Except Problem Field :=
  if keyword = "msgctxt".toList then .ok .context
  else if keyword = "msgid".toList then .ok .msgid
  else if keyword = "msgid_plural".toList then .ok .plural
  else if keyword = "msgstr".toList then .ok (.msgstr 0)
  else match (Text.stripPrefix? "msgstr[".toList keyword).bind (Text.stripSuffix? [']']) with
    | some index =>
      match Text.boundedNat? (maxPluralIndex + 1) index with
      | some n => .ok (.msgstr n)
      | none => .error (.badPluralIndex (String.ofList index))
    | none => .error (.unknownKeyword (String.ofList keyword))

/-- The field starts a new entry, if the one before it is complete. -/
def Field.startsEntry : Field → Bool
  | .context => true
  | .msgid => true
  | _ => false

/-- How a line is to be taken. -/
inductive Line where
  | blank
  | comment
  | continuation (text : List Char)
  | field (name : Field) (text : List Char)
  deriving Repr, DecidableEq

/-- A line, without the blanks around it, by its kind. The string is looked at before the
keyword. -/
def Line.ofText (continued : Bool) (line : List Char) : Except Problem Line :=
  match line with
  | [] => .ok .blank
  | '#' :: _ => .ok .comment
  | '"' :: _ =>
    if continued then (unquote line).map .continuation else .error .orphanContinuation
  | _ =>
    match Text.cutAtFirst? Text.isBlank line with
    | none => .error .missingString
    | some (keyword, rest) => do
      let text ← unquote (Text.trim rest)
      let field ← fieldOf keyword
      .ok (.field field text)

/-- The reader between two lines: the entries that are done, the fields collected, and the field
that a continuation goes to. -/
structure State where
  entries : List Entry := []
  pending : Pending := {}
  field : Option Field := none
  deriving Repr, DecidableEq

/-- The entry being collected is done. -/
def State.flush (s : State) : State :=
  { s with entries := s.entries ++ s.pending.entry?.toList, pending := {} }

/-- The entry being collected is done if it has a `msgid`. -/
def State.flushComplete (s : State) : State := if s.pending.msgid.isSome then s.flush else s

/-- The reader after one line. -/
def State.step (s : State) : Line → State
  | .blank => { s.flush with field := none }
  | .comment => { s.flushComplete with field := none }
  | .continuation text =>
    match s.field with
    | some f => { s with pending := s.pending.append f text }
    | none => s
  | .field f text =>
    let s := if f.startsEntry then s.flushComplete else s
    { s with pending := s.pending.append f text, field := some f }

/-- The reader after some lines, the first of which has the given number. -/
def State.run (s : State) (number : Nat) : List (List Char) → Except Error State
  | [] => .ok s
  | line :: rest =>
    match Line.ofText s.field.isSome (Text.trim line) with
    | .error problem => .error ⟨number, problem⟩
    | .ok kind => (s.step kind).run (number + 1) rest

/-- The entries of a catalog, its header included. A leading byte order mark does not count. -/
def parse (source : String) : Except Error (List Entry) :=
  (State.run {} 1 (Text.lines (Text.dropByteOrderMark source.toList))).map (·.flush.entries)

end SiteAssist.Po
