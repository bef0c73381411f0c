import SiteAssist.Text.Class
import SiteAssist.Text.Basic

/-!
# Tokens of a PHP file

A PHP file is text until the first opening tag and code after it; a closing tag and all up to the
next opening tag is one token within the code. Every character of a file belongs to a token, so a
stretch of the file is what its tokens write (`Token.written`).

Quoted texts and heredocs are single tokens. In the quotes that interpolate, an expression in braces
may hold quotes of its own. A quoted text without an end takes the rest of the file; a mark that
opens a comment without an end stands alone.
-/

namespace SiteAssist.Php

/-- A token, by what it is and how it is written. -/
inductive Token where
  /-- white space -/
  | blank (text : String)
  | comment (text : String)
  /-- text outside the code, the opening tag that ends it included -/
  | outside (text : String)
  /-- an identifier or keyword -/
  | word (text : String)
  | number (text : String)
  /-- a quoted text or a heredoc -/
  | quoted (text : String)
  /-- an operator or bracket -/
  | mark (text : String)
  deriving Repr, DecidableEq

/-- How a token is written. -/
def Token.text : Token → String
  | .blank s => s
  | .comment s => s
  | .outside s => s
  | .word s => s
  | .number s => s
  | .quoted s => s
  | .mark s => s

/-- How tokens are written one after the other. -/
def Token.written (ts : List Token) : String := String.join (ts.map Token.text)

/-- A character between tokens: white space or one without width. -/
def isGap (c : Char) : Bool :=
  Text.isBlank c || c == '\u200B' || c == '\u2060' || c == '\uFEFF'

/-- A character that a word starts with. -/
def isWordStart (c : Char) : Bool := c == '_' || c.isAlpha || (c.toNat ≥ 0x80 && !isGap c)

/-- A character that a word goes on with. -/
def isWordRest (c : Char) : Bool := isWordStart c || c.isDigit

/-- A text with what stands before it. -/
def before (head : List Char) (r : List Char × List Char) : List Char × List Char :=
  (head ++ r.1, r.2)

/-! ## Comments -/

/-- The rest of a line comment: it ends before a closing tag and before the line does, but a
question mark takes the character after it along. -/
def lineComment : List Char → List Char × List Char
  | [] => ([], [])
  | '?' :: '\n' :: rest => (['?', '\n'], rest)
  | '?' :: '\r' :: '\n' :: rest => (['?', '\r', '\n'], rest)
  | '?' :: c :: rest =>
    if c = '>' ∨ c = '\r' then ([], '?' :: c :: rest) else before ['?', c] (lineComment rest)
  | c :: rest =>
    if c = '?' ∨ c = '\n' ∨ c = '\r' then ([], c :: rest) else before [c] (lineComment rest)

/-- The rest of a block comment, if it ends. -/
def blockComment? (s : List Char) : Option (List Char × List Char) :=
  (Text.cutFirst? ['*', '/'] s).map fun (inner, rest) => (inner ++ ['*', '/'], rest)

/-! ## Quoted texts -/

mutual

/-- The rest of a quoted text, if it ends. A backslash takes the next character along; a
brace that never closes is a character like any other. -/
def quotedRest? (quote : Char) : Nat → List Char → Option (List Char × List Char)
  | 0, _ => none
  | _, [] => none
  | fuel + 1, '\\' :: c :: rest => (quotedRest? quote fuel rest).map (before ['\\', c])
  | fuel + 1, c :: rest =>
    if c = quote then some ([c], rest)
    else
      let braced :=
        if quote = '\'' then none
        else if c = '\x7b' ∧ rest.head? = some '$' then
          (bracedRest? fuel rest).map (before [c])
        else if c = '$' ∧ rest.head? = some '\x7b' then
          (bracedRest? fuel (rest.drop 1)).map (before [c, '\x7b'])
        else none
      let (taken, rest) := braced.getD ([c], rest)
      (quotedRest? quote fuel rest).map (before taken)

/-- The rest of an expression in braces, if it ends. -/
def bracedRest? : Nat → List Char → Option (List Char × List Char)
  | 0, _ => none
  | _, [] => none
  | fuel + 1, c :: rest =>
    if c = '\x7d' then some ([c], rest)
    else if c = '\x7b' then do
      let (inner, rest) ← bracedRest? fuel rest
      (bracedRest? fuel rest).map (before (c :: inner))
    else if c = '"' ∨ c = '\'' ∨ c = '`' then do
      let (inner, rest) ← quotedRest? c fuel rest
      (bracedRest? fuel rest).map (before (c :: inner))
    else (bracedRest? fuel rest).map (before [c])

end

/-- The last line of a heredoc here: its label, indented or not. -/
def heredocEnd? (label line : List Char) : Option (List Char × List Char) :=
  let (indent, rest) := line.span fun c => c == ' ' || c == '\t'
  match Text.stripPrefix? label rest with
  | some after => if after.head?.any isWordRest then none else some (indent ++ label, after)
  | none => none

/-- The lines of a heredoc from the start of one, if it ends. -/
def heredocLines? (label : List Char) (atStart : Bool) : List Char → Option (List Char × List Char)
  | [] => if atStart then heredocEnd? label [] else none
  | c :: rest =>
    match if atStart then heredocEnd? label (c :: rest) else none with
    | some found => some found
    | none => (heredocLines? label (c == '\n' || c == '\r') rest).map (before [c])

/-- A heredoc after its three angle brackets, if it is one and ends. -/
def heredoc? (s : List Char) : Option (List Char × List Char) :=
  let (gap, s) := s.span fun c => c == ' ' || c == '\t'
  let (quote, s) := match s with
    | '"' :: s => (['"'], s)
    | '\'' :: s => (['\''], s)
    | s => ([], s)
  let (label, s) := s.span isWordRest
  if ¬label.head?.any isWordStart then none
  else
    let close := Text.stripPrefix? quote s
    close.bind fun s =>
      let head := gap ++ quote ++ label ++ quote
      match s with
      | '\n' :: rest => (heredocLines? label true rest).map (before (head ++ ['\n']))
      | '\r' :: '\n' :: rest => (heredocLines? label true rest).map (before (head ++ ['\r', '\n']))
      | _ => none

/-! ## The code -/

/-- Text up to and with the next opening tag: `<?`, with `php` or `=` after it or nothing. -/
def outsideRest : List Char → List Char × List Char
  | [] => ([], [])
  | '<' :: '?' :: rest =>
    match rest with
    | '=' :: rest => (['<', '?', '='], rest)
    | a :: b :: c :: rest =>
      if [a, b, c].map Char.toLower = ['p', 'h', 'p'] then (['<', '?', a, b, c], rest)
      else (['<', '?'], a :: b :: c :: rest)
    | rest => (['<', '?'], rest)
  | c :: rest => before [c] (outsideRest rest)

/-- The marks of more than one character. -/
def longMarks : List (List Char) := ["?->", "::", "->", "#[", "=>"].map String.toList

/-- The mark here. -/
def markHere (s : List Char) : List Char × List Char :=
  match longMarks.findSome? fun m => (Text.stripPrefix? m s).map (m, ·) with
  | some found => found
  | none => (s.take 1, s.drop 1)

/-- The quoted text here, a `b` before its quote included, if there is one. -/
def quotedHere? (s : List Char) : Option (List Char × List Char) :=
  let quoted (lead : List Char) (q : Char) (rest : List Char) : Option (List Char × List Char) :=
    if q = '"' ∨ q = '\'' ∨ q = '`' then
      some (before (lead ++ [q]) ((quotedRest? q (rest.length + 1) rest).getD (rest, [])))
    else none
  match s with
  | '<' :: '<' :: '<' :: rest => (heredoc? rest).map (before ['<', '<', '<'])
  | b :: q :: rest =>
    if (b = 'b' ∨ b = 'B') ∧ q ≠ '`' then quoted [b] q rest else quoted [] b (q :: rest)
  | _ => none

/-- The comment here, if there is one. -/
def commentHere? (s : List Char) : Option (List Char × List Char) :=
  match s with
  | '/' :: '/' :: rest => some (before ['/', '/'] (lineComment rest))
  | '/' :: '*' :: rest => (blockComment? rest).map (before ['/', '*'])
  | '#' :: c :: rest =>
    if c = '[' then none
    else if c = '?' ∨ c = '\n' ∨ c = '\r' then some (['#'], c :: rest)
    else some (before ['#', c] (lineComment rest))
  | ['#'] => some (['#'], [])
  | _ => none

/-- The token here and the rest. -/
def next (s : List Char) : Token × List Char :=
  let made (kind : String → Token) (r : List Char × List Char) : Token × List Char :=
    (kind (String.ofList r.1), r.2)
  match s with
  | [] => (.blank "", [])
  | '?' :: '>' :: rest => made .outside (before ['?', '>'] (outsideRest rest))
  | c :: _ =>
    match commentHere? s with
    | some r => made .comment r
    | none =>
      match quotedHere? s with
      | some r => made .quoted r
      | none =>
        if isGap c then made .blank (s.span isGap)
        else if isWordStart c then made .word (s.span isWordRest)
        else if c.isDigit then made .number (s.span isWordRest)
        else made .mark (markHere s)

/-- The tokens of code. -/
def codeTokens : Nat → List Char → List Token
  | 0, _ => []
  | _, [] => []
  | fuel + 1, s =>
    let (t, rest) := next s
    t :: codeTokens fuel rest

/-- The tokens of a file. -/
def tokens (source : String) : List Token :=
  let (text, code) := outsideRest source.toList
  .outside (String.ofList text) :: codeTokens code.length code

end SiteAssist.Php
