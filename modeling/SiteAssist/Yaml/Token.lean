import SiteAssist.Text.Class
import SiteAssist.Text.Basic

/-!
# Tokens of a YAML text

A YAML text is cut into tokens from the left. Besides the marks that are written there are tokens
for what the layout says: a block collection starts where something is indented deeper than the
collection around it, and ends where the indentation falls back. That a scalar is a key shows only
at the colon after it, so its place is remembered while it *may be a key* (one place for each flow
level) and the key token is put there afterwards. A key fits on one line and in 1024 characters.

The scanner's state is a `Scan`; `fetch` takes one step, and `tokens` runs them all.
-/

namespace SiteAssist.Yaml

/-- Why a text is no usable YAML document. -/
inductive Fault where
  /-- a character that may not stand where it does -/
  | character
  /-- a scalar, tag, anchor or directive that is not well formed -/
  | lexeme
  /-- a key that never gets its colon, or a mark where it is not allowed -/
  | layout
  /-- tokens in an order that makes no document -/
  | order
  /-- an alias of nothing -/
  | alias
  /-- nested too deep -/
  | nesting
  /-- aliases repeat too much -/
  | repetition
  /-- one key twice in a mapping -/
  | duplicateKey
  /-- a scalar that is not what its tag says, or a number that is too large -/
  | scalar
  /-- more than one document -/
  | documents
  deriving Repr, DecidableEq

/-- How a scalar is written. -/
inductive Style where
  | plain
  | quoted
  | block
  deriving Repr, DecidableEq

/-- A token. -/
inductive Token where
  | streamEnd
  | version (major minor : Nat)
  | tagDirective (handle lead : String)
  | documentStart
  | documentEnd
  | blockSequenceStart
  | blockMappingStart
  | blockEnd
  | flowSequenceStart
  | flowSequenceEnd
  | flowMappingStart
  | flowMappingEnd
  | flowEntry
  | blockEntry
  | key
  | value
  | alias (name : String)
  | anchor (name : String)
  | tag (handle suffix : String)
  | scalar (style : Style) (text : String)
  deriving Repr, DecidableEq

/-- A place in the text, with what is left from there. -/
structure Cursor where
  rest : List Char
  index : Nat
  line : Nat
  column : Nat

/-- Where a key may have started. -/
structure KeyPlace where
  /-- the block layout has this be a key -/
  required : Bool
  tokenNumber : Nat
  index : Nat
  line : Nat
  column : Nat

/-- The state of the scanner. -/
structure Scan where
  cursor : Cursor
  tokens : Array Token
  /-- the indentation of the block collection around, outermost last; none is `-1` -/
  indents : List Int
  /-- the possible key of each flow level, innermost first -/
  keys : List (Option KeyPlace)
  /-- a key may start here -/
  keyAllowed : Bool
  finished : Bool

/-- A character that ends a line. -/
def isBreak (c : Char) : Bool :=
  c == '\n' || c == '\r' || c == '\u0085' || c == '\u2028' || c == '\u2029'

/-- A space or a tab. -/
def isBlank (c : Char) : Bool := c == ' ' || c == '\t'

/-- A blank or a break. -/
def isBlankOrBreak (c : Char) : Bool := isBlank c || isBreak c

/-- A character of a name. -/
def isWordChar (c : Char) : Bool := c.isAlphanum || c == '_' || c == '-'

/-- A character that a YAML text may hold. -/
def isAllowed (c : Char) : Bool :=
  let n := c.toNat
  n == 0x09 || n == 0x0A || n == 0x0D || (0x20 ≤ n && n ≤ 0x7E) || n == 0x85
    || (0xA0 ≤ n && n ≤ 0xD7FF) || (0xE000 ≤ n && n ≤ 0xFFFD) || 0x10000 ≤ n

namespace Cursor

/-- The character here. -/
def head? (c : Cursor) : Option Char := c.rest.head?

/-- The character `n` places on. -/
def ahead? (c : Cursor) (n : Nat) : Option Char := c.rest[n]?

/-- Past one character of a line. -/
def skip (c : Cursor) : Cursor :=
  { c with rest := c.rest.drop 1, index := c.index + 1, column := c.column + 1 }

/-- Past some characters of a line. -/
def skips (c : Cursor) (n : Nat) : Cursor :=
  { c with rest := c.rest.drop n, index := c.index + n, column := c.column + n }

/-- Past a line break, a carriage return and line feed being one. -/
def skipLine (c : Cursor) : Cursor :=
  match c.rest with
  | '\r' :: '\n' :: rest => { rest, index := c.index + 2, line := c.line + 1, column := 0 }
  | _ :: rest => { rest, index := c.index + 1, line := c.line + 1, column := 0 }
  | [] => c

/-- The text of the break here: a line feed, but for the two Unicode separators. -/
def breakText (c : Cursor) : List Char :=
  match c.rest with
  | '\u2028' :: _ => ['\u2028']
  | '\u2029' :: _ => ['\u2029']
  | _ :: _ => ['\n']
  | [] => []

/-- The characters of a kind here, and the place after them. -/
def takeWhile (p : Char → Bool) (c : Cursor) : List Char × Cursor :=
  let taken := c.rest.takeWhile p
  (taken, c.skips taken.length)

/-- Past the blanks. -/
def skipBlanks (c : Cursor) : Cursor := (c.takeWhile isBlank).2

/-- A blank, a break or the end stands `n` places on. -/
def blankAt (c : Cursor) (n : Nat) : Bool := (c.ahead? n).all isBlankOrBreak

/-- A break or the end stands here. -/
def atBreakOrEnd (c : Cursor) : Bool := c.head?.all isBreak

/-- A character stands here. -/
def at? (c : Cursor) (d : Char) : Bool := c.head? == some d

/-- A document mark stands here: three dashes or dots at the start of a line. -/
def atDocumentMark (c : Cursor) : Bool :=
  c.column == 0 && c.blankAt 3 && (c.rest.take 3 == "---".toList || c.rest.take 3 == "...".toList)

end Cursor

namespace Scan

/-- The state before the text. -/
def start (text : List Char) : Scan :=
  { cursor := ⟨text, 0, 0, 0⟩, tokens := #[], indents := [-1], keys := [none], keyAllowed := true
    finished := false }

/-- Some flow collection is open. -/
def inFlow (s : Scan) : Bool := s.keys.length > 1

/-- The indentation of the block collection around. -/
def indent (s : Scan) : Int := s.indents.head?.getD (-1)

/-- The state with the place moved. -/
def moved (s : Scan) (c : Cursor) : Scan := { s with cursor := c }

/-- The state with a token more. -/
def emit (s : Scan) (t : Token) : Scan := { s with tokens := s.tokens.push t }

/-- The state with a token put before those from a number on. -/
def insertAt (s : Scan) (n : Nat) (t : Token) : Scan :=
  { s with tokens := (s.tokens.toList.take n ++ t :: s.tokens.toList.drop n).toArray }

/-- A block collection starts here if it is indented deeper than the one around. -/
def roll (s : Scan) (column : Nat) (place : Option Nat) (t : Token) : Scan :=
  if s.inFlow ∨ ¬s.indent < column then s
  else
    let s := match place with
      | some n => s.insertAt n t
      | none => s.emit t
    { s with indents := (column : Int) :: s.indents }

/-- Block collections that are indented deeper than here end. -/
def unroll (s : Scan) (column : Int) : Scan :=
  if s.inFlow then s
  else
    let deeper := s.indents.takeWhile (column < ·)
    { s with
      indents := s.indents.drop deeper.length
      tokens := s.tokens ++ (deeper.map fun _ => Token.blockEnd).toArray }

/-- The possible key of the present level is none, unless it has to be one. -/
def dropKey (s : Scan) : Except Fault Scan :=
  match s.keys with
  | some place :: outer =>
    if place.required then .error .layout else .ok { s with keys := none :: outer }
  | _ => .ok s

/-- What stands here may be a key. -/
def saveKey (s : Scan) : Except Fault Scan :=
  if ¬s.keyAllowed then .ok s
  else do
    let s ← s.dropKey
    let c := s.cursor
    let place : KeyPlace :=
      { required := !s.inFlow && s.indent == (c.column : Int)
        tokenNumber := s.tokens.size, index := c.index, line := c.line, column := c.column }
    .ok { s with keys := some place :: s.keys.drop 1 }

/-- Possible keys that are too far back are none. -/
def dropStaleKeys (s : Scan) : Except Fault Scan := do
  let keys ← s.keys.mapM fun
    | some place =>
      if place.line < s.cursor.line ∨ place.index + 1024 < s.cursor.index then
        if place.required then .error Fault.layout else .ok none
      else .ok (some place)
    | none => .ok none
  .ok { s with keys }

/-- To the next token, past blanks, comments and breaks. A tab is no blank where a key may
start. -/
def toNext (s : Scan) : Nat → Scan
  | 0 => s
  | fuel + 1 =>
    let c := s.cursor
    let c := if c.index == 0 && c.at? '\uFEFF' then c.skip else c
    let tabs := s.inFlow || !s.keyAllowed
    let c := (c.takeWhile fun d => d == ' ' || (tabs && d == '\t')).2
    let c := if c.at? '#' then (c.takeWhile fun d => !isBreak d).2 else c
    if c.head?.any isBreak then
      toNext { s.moved c.skipLine with keyAllowed := s.keyAllowed || !s.inFlow } fuel
    else s.moved c

end Scan

/-- A character of a tag; inside angle brackets, or as the lead of a directive, three more. -/
def isTagChar (wide : Bool) (c : Char) : Bool :=
  isWordChar c || ";/?:@&=+$.%!~*'()".contains c || (wide && ",[]".contains c)

/-- The octets of percent triples as characters, or nothing if a triple is not well formed. -/
def tagText? : List Char → Option (List UInt8)
  | [] => some []
  | '%' :: a :: b :: rest => do
    let x ← Text.hexValue? a
    let y ← Text.hexValue? b
    (tagText? rest).map (UInt8.ofNat (16 * x + y) :: ·)
  | '%' :: _ => none
  | c :: rest => (tagText? rest).map (UInt8.ofNat c.toNat :: ·)

/-- The characters of a tag here, percent triples decoded. The text before them counts towards
there being any. -/
def scanTagText (c : Cursor) (wide : Bool) (head : List Char) :
    Except Fault (String × Cursor) :=
  let (chars, c) := c.takeWhile (isTagChar wide)
  if head.isEmpty ∧ chars.isEmpty then .error .lexeme
  else match tagText? chars with
    | none => .error .lexeme
    | some octets =>
      match String.fromUTF8? ⟨octets.toArray⟩ with
      | some text => .ok (String.ofList (head.drop 1) ++ text, c)
      | none => .error .lexeme

/-- A tag handle here: `!`, or a name between two of them, or the start of a suffix. -/
def scanTagHandle (c : Cursor) (directive : Bool) : Except Fault (List Char × Cursor) :=
  if ¬c.at? '!' then .error .lexeme
  else
    let (name, after) := c.skip.takeWhile isWordChar
    if after.at? '!' then .ok ('!' :: name ++ ['!'], after.skip)
    else if directive ∧ ¬name.isEmpty then .error .lexeme
    else .ok ('!' :: name, after)

/-- A tag here. -/
def scanTag (c : Cursor) (inFlow : Bool) : Except Fault (Token × Cursor) := do
  let (token, c) ←
    if c.ahead? 1 = some '<' then do
      let (suffix, c) ← scanTagText (c.skips 2) true []
      if c.at? '>' then .ok (Token.tag "" suffix, c.skip) else .error .lexeme
    else do
      let (handle, c) ← scanTagHandle c false
      if handle.length > 1 ∧ handle.getLast? = some '!' then do
        let (suffix, c) ← scanTagText c false []
        .ok (Token.tag (String.ofList handle) suffix, c)
      else do
        let (suffix, c) ← scanTagText c false handle
        if suffix = "" then .ok (Token.tag "" "!", c) else .ok (Token.tag "!" suffix, c)
  if (inFlow && c.at? ',') || c.blankAt 0 then .ok (token, c) else .error .lexeme

/-- An anchor or alias name here, after its mark. -/
def scanName (c : Cursor) : Except Fault (String × Cursor) :=
  let (name, c) := c.skip.takeWhile isWordChar
  if name.isEmpty then .error .lexeme
  else if c.blankAt 0 ∨ c.head?.any ("?:,]\x7d%@`".contains ·) then .ok (String.ofList name, c)
  else .error .lexeme

/-- The number of a version directive: one to nine digits. -/
def scanVersionNumber (c : Cursor) : Except Fault (Nat × Cursor) :=
  let (digits, c) := c.takeWhile Char.isDigit
  if digits.length > 9 then .error .lexeme
  else match Text.digitsValue? digits with
    | some n => .ok (n, c)
    | none => .error .lexeme

/-- A directive here. Only the two that exist are known. -/
def scanDirective (c : Cursor) : Except Fault (Token × Cursor) := do
  let (name, c) := c.skip.takeWhile isWordChar
  if name.isEmpty ∨ ¬c.blankAt 0 then .error .lexeme
  let (token, c) ←
    if name = "YAML".toList then do
      let (major, c) ← scanVersionNumber c.skipBlanks
      if ¬c.at? '.' then .error Fault.lexeme
      let (minor, c) ← scanVersionNumber c.skip
      .ok (Token.version major minor, c)
    else if name = "TAG".toList then do
      let (handle, c) ← scanTagHandle c.skipBlanks true
      if ¬c.head?.any isBlank then .error Fault.lexeme
      let (lead, c) ← scanTagText c.skipBlanks true []
      if ¬c.blankAt 0 then .error Fault.lexeme
      .ok (Token.tagDirective (String.ofList handle) lead, c)
    else .error Fault.lexeme
  let c := c.skipBlanks
  let c := if c.at? '#' then (c.takeWhile fun d => !isBreak d).2 else c
  if c.atBreakOrEnd then .ok (token, c.skipLine) else .error .lexeme

/-- Line breaks folded: a single one becomes a space, the first of several is dropped. -/
def fold (first : List Char) (others : List Char) : List Char :=
  if first = ['\n'] then (if others.isEmpty then [' '] else others) else first ++ others

/-- The empty lines and the indentation before a line of a block scalar: the breaks, the
indentation, found here if it is not yet known, and the place after. -/
def scanBlockBreaks (around : Int) (indent : Nat) (widest : Nat) (c : Cursor) :
    Nat → Except Fault (List Char × Nat × Cursor)
  | 0 => .error .lexeme
  | fuel + 1 =>
    let free (c : Cursor) : Bool := indent == 0 || c.column < indent
    let spaces := (c.rest.takeWhile (· == ' ')).length
    let c := c.skips (if indent == 0 then spaces else min spaces (indent - c.column))
    let widest := max widest c.column
    if free c && c.at? '\t' then .error .lexeme
    else if c.head?.any isBreak then do
      let (breaks, indent, after) ← scanBlockBreaks around indent widest c.skipLine fuel
      .ok (c.breakText ++ breaks, indent, after)
    else
      let found := if indent == 0 then max (max widest (around + 1).toNat) 1 else indent
      .ok ([], found, c)

/-- The lines of a block scalar, joined or folded, with the breaks that follow the last one. -/
def scanBlockLines (literal : Bool) (around : Int) (indent : Nat) (text lead trail : List Char)
    (afterBlank : Bool) (c : Cursor) :
    Nat → Except Fault (List Char × List Char × List Char × Cursor)
  | 0 => .error .lexeme
  | fuel + 1 =>
    if c.column ≠ indent ∨ c.rest.isEmpty then .ok (text, lead, trail, c)
    else do
      let blank := c.head?.any isBlank
      let joined :=
        if !literal && lead == ['\n'] && !afterBlank && !blank then
          if trail.isEmpty then [' '] else trail
        else lead ++ trail
      let (line, c) := c.takeWhile fun d => !isBreak d
      let lead := c.breakText
      let (trail, indent, c) ← scanBlockBreaks around indent 0 c.skipLine (c.rest.length + 2)
      scanBlockLines literal around indent (text ++ joined ++ line) lead trail blank c fuel

/-- A block scalar here: its mark with chomping and indentation, then its lines. -/
def scanBlockScalar (around : Int) (c : Cursor) : Except Fault (Token × Cursor) := do
  let literal := c.at? '|'
  let c := c.skip
  let (signs, c) := c.takeWhile fun d => d == '+' || d == '-' || d.isDigit
  let (chomp, increment) ← match signs with
    | [] => .ok (' ', 0)
    | [a] => if a.isDigit then .ok (' ', a.toNat - 48) else .ok (a, 0)
    | [a, b] =>
      if a.isDigit && !b.isDigit then .ok (b, a.toNat - 48)
      else if !a.isDigit && b.isDigit then .ok (a, b.toNat - 48)
      else .error Fault.lexeme
    | _ => .error Fault.lexeme
  if signs.contains '0' then .error Fault.lexeme
  let c := c.skipBlanks
  let c := if c.at? '#' then (c.takeWhile fun d => !isBreak d).2 else c
  if ¬c.atBreakOrEnd then .error Fault.lexeme
  let c := c.skipLine
  let fuel := c.rest.length + 2
  let indent := if increment = 0 then 0 else (max around 0).toNat + increment
  let (trail, indent, c) ← scanBlockBreaks around indent 0 c fuel
  let (text, lead, trail, c) ← scanBlockLines literal around indent [] [] trail false c fuel
  let text := if chomp = '-' then text else text ++ lead
  let text := if chomp = '+' then text ++ trail else text
  .ok (.scalar .block (String.ofList text), c)

/-- The blanks and breaks inside a scalar: the blanks before the first break, that break, the
others, and the place after. Where indentation counts, no tab may stand in it. -/
def scanGap (indent : Option Int) (broken : Bool) (blanks first others : List Char) (c : Cursor) :
    Nat → Except Fault (Bool × List Char × List Char × List Char × Cursor)
  | 0 => .error .lexeme
  | fuel + 1 =>
    match c.head? with
    | none => .ok (broken, blanks, first, others, c)
    | some d =>
      if isBlank d then
        if broken && d == '\t' && indent.any ((c.column : Int) < ·) then .error .lexeme
        else
          let blanks := if broken then blanks else blanks ++ [d]
          scanGap indent broken blanks first others c.skip fuel
      else if isBreak d then
        if broken then
          scanGap indent broken blanks first (others ++ c.breakText) c.skipLine fuel
        else scanGap indent true [] c.breakText others c.skipLine fuel
      else .ok (broken, blanks, first, others, c)

/-- The number of digits of an escape by number. -/
def escapeWidth? : Char → Option Nat
  | 'x' => some 2
  | 'u' => some 4
  | 'U' => some 8
  | _ => none

/-- The character of an escape by letter. -/
def escapeChar? : Char → Option Char
  | '0' => some '\x00'
  | 'a' => some '\x07'
  | 'b' => some '\x08'
  | 't' => some '\t'
  | '\t' => some '\t'
  | 'n' => some '\n'
  | 'v' => some '\x0b'
  | 'f' => some '\x0c'
  | 'r' => some '\r'
  | 'e' => some '\x1b'
  | ' ' => some ' '
  | '"' => some '"'
  | '/' => some '/'
  | '\\' => some '\\'
  | 'N' => some '\u0085'
  | '_' => some '\u00a0'
  | 'L' => some '\u2028'
  | 'P' => some '\u2029'
  | _ => none

/-- The number of so many hexadecimal digits here. -/
def hexNumber? (width : Nat) (s : List Char) : Option Nat :=
  if s.length < width then none
  else
    (s.take width).foldl
      (fun acc c => acc.bind fun n => (Text.hexValue? c).map (16 * n + ·)) (some 0)

/-- An escape here, after its backslash. -/
def scanEscape (c : Cursor) : Except Fault (Char × Cursor) :=
  match c.head? with
  | none => .error .lexeme
  | some e =>
    match escapeChar? e with
    | some d => .ok (d, c.skip)
    | none =>
      match (escapeWidth? e).bind fun w => (hexNumber? w (c.rest.drop 1)).map (w, ·) with
      | none => .error .lexeme
      | some (w, n) =>
        if (0xD800 ≤ n ∧ n ≤ 0xDFFF) ∨ 0x10FFFF < n then .error .lexeme
        else .ok (Char.ofNat n, c.skips (w + 1))

/-- A run of a quoted scalar without blanks: its text, whether an escaped break ended it, and
the place after. -/
def scanQuotedRun (single : Bool) (text : List Char) (c : Cursor) :
    Nat → Except Fault (List Char × Bool × Cursor)
  | 0 => .error .lexeme
  | fuel + 1 =>
    match c.head? with
    | none => .ok (text, false, c)
    | some d =>
      if isBlankOrBreak d then .ok (text, false, c)
      else if single && d == '\'' && c.ahead? 1 == some '\'' then
        scanQuotedRun single (text ++ ['\'']) (c.skips 2) fuel
      else if d == (if single then '\'' else '"') then .ok (text, false, c)
      else if !single && d == '\\' then
        if (c.ahead? 1).any isBreak then .ok (text, true, c.skip.skipLine)
        else do
          let (e, c) ← scanEscape c.skip
          scanQuotedRun single (text ++ [e]) c fuel
      else scanQuotedRun single (text ++ [d]) c.skip fuel

/-- The rest of a quoted scalar. -/
def scanQuotedRest (single : Bool) (text : List Char) (c : Cursor) :
    Nat → Except Fault (List Char × Cursor)
  | 0 => .error .lexeme
  | fuel + 1 =>
    if c.atDocumentMark ∨ c.rest.isEmpty then .error .lexeme
    else do
      let (text, broken, c) ← scanQuotedRun single text c (c.rest.length + 1)
      if c.at? (if single then '\'' else '"') then .ok (text, c.skip)
      else do
        let (broken, blanks, first, others, c) ← scanGap none broken [] [] [] c (c.rest.length + 1)
        let gap := if broken then fold first others else blanks
        scanQuotedRest single (text ++ gap) c fuel

/-- A quoted scalar here. -/
def scanQuoted (c : Cursor) : Except Fault (Token × Cursor) := do
  let (text, c) ← scanQuotedRest (c.at? '\'') [] c.skip (c.rest.length + 1)
  .ok (.scalar .quoted (String.ofList text), c)

/-- A run of a plain scalar without blanks. -/
def scanPlainRun (inFlow : Bool) (text : List Char) (c : Cursor) :
    Nat → Except Fault (List Char × Cursor)
  | 0 => .error .lexeme
  | fuel + 1 =>
    match c.head? with
    | none => .ok (text, c)
    | some d =>
      if isBlankOrBreak d then .ok (text, c)
      else if inFlow && d == ':' && (c.ahead? 1).any (",?[]\x7b\x7d".contains ·) then .error .lexeme
      else if d == ':' && c.blankAt 1 then .ok (text, c)
      else if inFlow && ",[]\x7b\x7d".contains d then .ok (text, c)
      else scanPlainRun inFlow (text ++ [d]) c.skip fuel

/-- The rest of a plain scalar, given the gap before it, and whether it ended after a break. -/
def scanPlainRest (inFlow : Bool) (indent : Int) (text gap : List Char) (broken : Bool)
    (c : Cursor) : Nat → Except Fault (List Char × Bool × Cursor)
  | 0 => .error .lexeme
  | fuel + 1 =>
    if c.atDocumentMark ∨ c.at? '#' then .ok (text, broken, c)
    else do
      let (run, c) ← scanPlainRun inFlow [] c (c.rest.length + 1)
      let (text, gap, broken) :=
        if run.isEmpty then (text, gap, broken) else (text ++ gap ++ run, [], false)
      if ¬c.head?.any isBlankOrBreak then .ok (text, broken, c)
      else do
        let (broken, blanks, first, others, c) ←
          scanGap (some indent) broken gap [] [] c (c.rest.length + 1)
        let gap := if broken then fold first others else blanks
        if !inFlow && (c.column : Int) < indent then .ok (text, broken, c)
        else scanPlainRest inFlow indent text gap broken c fuel

/-- A plain scalar here, and whether it ended after a break. -/
def scanPlain (inFlow : Bool) (around : Int) (c : Cursor) :
    Except Fault (Token × Bool × Cursor) := do
  let (text, broken, c) ← scanPlainRest inFlow (around + 1) [] [] false c (c.rest.length + 1)
  .ok (.scalar .plain (String.ofList text), broken, c)

namespace Scan

/-- A mark of one character that is a token. -/
def mark (s : Scan) (t : Token) (keyAllowed : Bool) : Scan :=
  { (s.emit t).moved s.cursor.skip with keyAllowed }

/-- The step at a document mark. -/
def documentMark (s : Scan) (t : Token) : Except Fault Scan := do
  let s ← (s.unroll (-1)).dropKey
  .ok { (s.emit t).moved (s.cursor.skips 3) with keyAllowed := false }

/-- The step at the end of the text. -/
def finish (s : Scan) : Except Fault Scan := do
  let s ← (s.unroll (-1)).dropKey
  .ok { s.emit .streamEnd with finished := true }

/-- The step at the colon of a value. -/
def valueMark (s : Scan) : Except Fault Scan :=
  match s.keys with
  | some place :: outer =>
    let s := s.insertAt place.tokenNumber .key
    let s := s.roll place.column (some place.tokenNumber) .blockMappingStart
    .ok ({ s with keys := none :: outer }.mark .value false)
  | _ =>
    if s.inFlow then .ok (s.mark .value false)
    else if ¬s.keyAllowed then .error .layout
    else .ok ((s.roll s.cursor.column none .blockMappingStart).mark .value true)

/-- The step at a mark that only blocks have: the dash of an item or the question mark of a
key. -/
def blockMark (s : Scan) (opener t : Token) (allowedInFlow : Bool) : Except Fault Scan := do
  if ¬s.inFlow ∧ ¬s.keyAllowed then .error .layout
  let s ← (s.roll s.cursor.column none opener).dropKey
  .ok (s.mark t (allowedInFlow || !s.inFlow))

/-- The step at a lexeme that may be a key. -/
def lexeme (s : Scan) (scan : Cursor → Except Fault (Token × Cursor)) : Except Fault Scan := do
  let s ← s.saveKey
  let (t, c) ← scan s.cursor
  .ok { (s.emit t).moved c with keyAllowed := false }

/-- A character that a plain scalar cannot start with, whatever follows. -/
def isIndicator (c : Char) : Bool := "-?:,[]\x7b\x7d#&*!|>'\"%@`".contains c

/-- One step: the next token and all that its place implies. -/
def fetch (s : Scan) : Except Fault Scan := do
  let s := s.toNext (s.cursor.rest.length + 1)
  let s ← s.dropStaleKeys
  let s := s.unroll s.cursor.column
  let c := s.cursor
  match c.head? with
  | none => s.finish
  | some d =>
    if c.column == 0 && d == '%' then do
      let s ← (s.unroll (-1)).dropKey
      let (t, c) ← scanDirective s.cursor
      .ok { (s.emit t).moved c with keyAllowed := false }
    else if c.atDocumentMark then s.documentMark (if d == '-' then .documentStart else .documentEnd)
    else if d == '[' || d == '\x7b' then do
      let s ← s.saveKey
      let s := s.mark (if d == '[' then .flowSequenceStart else .flowMappingStart) true
      .ok { s with keys := none :: s.keys }
    else if d == ']' || d == '\x7d' then do
      let s ← s.dropKey
      let s := s.mark (if d == ']' then .flowSequenceEnd else .flowMappingEnd) false
      .ok { s with keys := if s.inFlow then s.keys.drop 1 else s.keys }
    else if d == ',' then do
      let s ← s.dropKey
      .ok (s.mark .flowEntry true)
    else if d == '-' && c.blankAt 1 then s.blockMark .blockSequenceStart .blockEntry true
    else if d == '?' && (s.inFlow || c.blankAt 1) then s.blockMark .blockMappingStart .key false
    else if d == ':' && (s.inFlow || c.blankAt 1) then s.valueMark
    else if d == '*' then
      s.lexeme fun c => (scanName c).map fun (n, c) => (Token.alias n, c)
    else if d == '&' then
      s.lexeme fun c => (scanName c).map fun (n, c) => (Token.anchor n, c)
    else if d == '!' then s.lexeme (scanTag · s.inFlow)
    else if (d == '|' || d == '>') && !s.inFlow then do
      let s ← s.dropKey
      let (t, c) ← scanBlockScalar s.indent s.cursor
      .ok { (s.emit t).moved c with keyAllowed := true }
    else if d == '\'' || d == '"' then s.lexeme scanQuoted
    else if (!isBlankOrBreak d && !isIndicator d) || (d == '-' && !c.blankAt 1)
        || (!s.inFlow && (d == '?' || d == ':') && !c.blankAt 1) then do
      let s ← s.saveKey
      let (t, broken, c) ← scanPlain s.inFlow s.indent s.cursor
      .ok { (s.emit t).moved c with keyAllowed := broken }
    else .error .character

/-- Steps until the text ends. -/
def run (s : Scan) : Nat → Except Fault Scan
  | 0 => .error .lexeme
  | fuel + 1 => do
    let s ← s.fetch
    if s.finished then .ok s else run s fuel

end Scan

/-- The tokens of a text. -/
def tokens (text : List Char) : Except Fault (List Token) :=
  if text.all isAllowed then
    ((Scan.start text).run (text.length + 2)).map (·.tokens.toList)
  else .error .character

end SiteAssist.Yaml
