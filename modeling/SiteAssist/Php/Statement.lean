import SiteAssist.Php.Token

/-!
# Where a statement ends

To find the declarations of a file it is enough to know where each statement ends. The functions
here pass over parts of the code and give what is left: a bracketed group (`afterGroup`), the rest
of an expression (`afterExpression`), a whole statement (`afterStatement`).

Code that is not well formed is mended as near to the fault as possible. A semicolon or a closing
brace ends all parentheses and brackets that are open within its block; a statement that lacks its
semicolon ends before a word that can only start another one; what lacks its end ends with the file.
-/

namespace SiteAssist.Php

/-- A token between others: white space, a comment or text outside the code. -/
def Token.isTrivia : Token → Bool
  | .blank _ => true
  | .comment _ => true
  | .outside _ => true
  | _ => false

/-- The tokens from the first one that counts. -/
def dropTrivia (ts : List Token) : List Token := ts.dropWhile Token.isTrivia

/-- A word in lower case; keywords are known by it. -/
def lower (s : String) : String := s.map Char.toLower

/-- The keyword that a token may be. -/
def Token.keyword? : Token → Option String
  | .word s => some (lower s)
  | _ => none

/-- The next token that counts is this mark. -/
def nextIsMark (m : String) (ts : List Token) : Bool := (dropTrivia ts).head? == some (.mark m)

/-- The next token that counts is this keyword. -/
def nextIsKeyword (k : String) (ts : List Token) : Bool :=
  ((dropTrivia ts).head?.bind Token.keyword?) == some k

/-- The next token that counts is a word. -/
def nextIsWord (ts : List Token) : Bool := ((dropTrivia ts).head?.bind Token.keyword?).isSome

/-- The next token that counts, if it is a word, as it is written. -/
def nextWord? (ts : List Token) : Option String :=
  match dropTrivia ts with
  | .word s :: _ => some s
  | _ => none

/-- Past the next token that counts. -/
def dropNext (ts : List Token) : List Token := (dropTrivia ts).drop 1

/-! ## Groups -/

/-- An open bracket. The parentheses of a `for` may hold semicolons. -/
inductive Bracket where
  | brace
  | square
  | round
  | roundOfFor
  deriving Repr, DecidableEq

/-- The bracket that a mark opens, given the keyword before it. -/
def Bracket.opened? (m : String) (afterFor : Bool) : Option Bracket :=
  if m = "\x7b" then some .brace
  else if m = "[" ∨ m = "#[" then some .square
  else if m = "(" then some (if afterFor then .roundOfFor else .round)
  else none

/-- The bracket is closed by a mark. -/
def Bracket.closedBy (b : Bracket) (m : String) : Bool :=
  match b with
  | .brace => m == "\x7d"
  | .square => m == "]"
  | .round => m == ")"
  | .roundOfFor => m == ")"

/-- The brackets that are open after a mark, innermost first. -/
def bracketsAfter (m : String) (afterFor : Bool) (open' : List Bracket) : List Bracket :=
  match Bracket.opened? m afterFor with
  | some b => b :: open'
  | none =>
    match open' with
    | [] => []
    | b :: outer =>
      if b.closedBy m then outer
      else if m = "\x7d" then (open'.dropWhile (· ≠ .brace)).drop 1
      else if m = ";" ∧ (b = .round ∨ b = .square) then open'.dropWhile (· ≠ .brace)
      else open'

/-- Past the end of the brackets that are open. A semicolon or brace that ends them all without
being their own is left. -/
def afterBrackets (afterFor : Bool) : List Bracket → List Token → List Token
  | _, [] => []
  | [], ts => ts
  | b :: outer, t :: ts =>
    match t with
    | .mark m =>
      match bracketsAfter m afterFor (b :: outer) with
      | [] => if (b :: outer).getLast?.any (·.closedBy m) then ts else t :: ts
      | open' => afterBrackets false open' ts
    | .word s => afterBrackets (lower s == "for") (b :: outer) ts
    | t => afterBrackets (afterFor && t.isTrivia) (b :: outer) ts

/-- Past the group whose bracket is next, if one is; it may be that of a `for`. -/
def afterGroupOf (ofFor : Bool) (ts : List Token) : List Token :=
  match dropTrivia ts with
  | .mark m :: rest =>
    match Bracket.opened? m ofFor with
    | some b => afterBrackets false [b] rest
    | none => ts
  | _ => ts

/-- Past the group whose bracket is next, if one is. -/
def afterGroup (ts : List Token) : List Token := afterGroupOf false ts

/-! ## Expressions -/

/-- The words that only start statements, whatever follows. -/
def starters : List String :=
  ["if", "while", "for", "foreach", "switch", "do", "try", "return", "break", "continue", "echo",
   "global", "interface", "trait", "abstract", "final", "unset", "goto", "declare"]

/-- The marks after which a word is the name of a member. -/
def memberMarks : List String := ["->", "?->", "::", "\\", "$"]

/-- A word starts a statement where it stands, given the token before it that counts and the
tokens after it. -/
def startsStatement (previous : Option Token) (word : String) (rest : List Token) : Bool :=
  let member : Bool := match previous with
    | some (.mark m) => memberMarks.contains m
    | some (.word w) => ["new", "function", "use", "const", "readonly"].contains (lower w)
    | _ => false
  if member || nextIsMark ":" rest then false
  else if starters.contains word then true
  else if word = "function" then
    nextIsWord rest || (nextIsMark "&" rest && nextIsWord (dropNext rest))
  else if word = "class" then
    nextIsWord rest && !nextIsKeyword "extends" rest && !nextIsKeyword "implements" rest
  else if word = "namespace" then nextIsWord rest
  else false

/-- Past the rest of an expression statement: its semicolon, or up to a closing tag, a closing
brace or the start of another statement. -/
def afterExpression (open' : List Bracket) (previous : Option Token) :
    List Token → List Token
  | [] => []
  | t :: ts =>
    match t with
    | .mark m =>
      if open'.isEmpty ∧ m = ";" then ts
      else if open'.isEmpty ∧ m = "\x7d" then t :: ts
      else
        let now := bracketsAfter m ((previous.bind Token.keyword?) == some "for") open'
        if m = ";" ∧ now.isEmpty then ts
        else if m = "\x7d" ∧ now.isEmpty ∧ !open'.contains .brace then t :: ts
        else afterExpression now (some t) ts
    | .word s =>
      if open'.isEmpty && previous.isSome && startsStatement previous (lower s) ts then t :: ts
      else afterExpression open' (some t) ts
    | .outside _ =>
      if open'.isEmpty && previous.isSome then t :: ts else afterExpression open' previous ts
    | .blank _ => afterExpression open' previous ts
    | .comment _ => afterExpression open' previous ts
    | t => afterExpression open' (some t) ts

/-- Past a semicolon, if it is next. -/
def afterSemicolon (ts : List Token) : List Token :=
  if nextIsMark ";" ts then dropNext ts else ts

/-- Past the head of a declaration and its block. Without a block, up to the semicolon or brace
that stands in its place. -/
def afterHeadAndBlock (ts : List Token) : List Token :=
  let rest := ts.dropWhile fun t => !(["\x7b", ";", "\x7d"].any fun m => t == .mark m)
  if nextIsMark "\x7b" rest then afterGroup rest else rest

/-! ## Statements -/

/-- The word that closes the block after a colon. -/
def closerOf (keyword : String) : String := "end" ++ keyword

mutual

/-- Past one statement. -/
def afterStatement : Nat → List Token → List Token
  | 0, _ => []
  | fuel + 1, ts =>
    match dropTrivia ts with
    | [] => []
    | .mark "\x7b" :: rest => afterBrackets false [.brace] rest
    | .mark "\x7d" :: rest => .mark "\x7d" :: rest
    | .mark ";" :: rest => rest
    | .word s :: rest =>
      match lower s with
      | "if" =>
        let body := afterGroup rest
        if nextIsMark ":" body then afterColonBlock "if" fuel (dropNext body)
        else afterBranches fuel (afterStatement fuel body)
      | "while" => afterLoop "while" fuel (afterGroup rest)
      | "for" => afterLoop "for" fuel (afterGroupOf true rest)
      | "foreach" => afterLoop "foreach" fuel (afterGroup rest)
      | "switch" => afterLoop "switch" fuel (afterGroup rest)
      | "declare" => afterLoop "declare" fuel (afterGroup rest)
      | "do" =>
        let body := afterStatement fuel rest
        if nextIsKeyword "while" body then afterSemicolon (afterGroup (dropNext body)) else body
      | "try" => afterHandlers fuel (afterGroup rest)
      | "function" =>
        if startsStatement none "function" rest then afterHeadAndBlock rest
        else afterExpression [] (some (.word s)) rest
      | "class" => afterHeadAndBlock rest
      | "interface" => afterHeadAndBlock rest
      | "trait" => afterHeadAndBlock rest
      | "enum" =>
        if nextIsWord rest then afterHeadAndBlock rest
        else afterExpression [] (some (.word s)) rest
      | "abstract" => afterHeadAndBlock rest
      | "final" => afterHeadAndBlock rest
      | "readonly" => afterHeadAndBlock rest
      | "namespace" =>
        if rest.head? = some (.mark "\\") then afterExpression [] (some (.word s)) rest
        else
          let named := rest.dropWhile fun t => !(["\x7b", ";", "\x7d"].any fun m => t == .mark m)
          if nextIsMark "\x7b" named then afterGroup named else afterSemicolon named
      | _ =>
        if nextIsMark ":" rest then dropNext rest
        else afterExpression [] (some (.word s)) rest
    | .mark "#[" :: rest => afterStatement fuel (afterBrackets false [.square] rest)
    | t :: rest =>
      match t with
      | .mark m => afterExpression (bracketsAfter m false []) (some t) rest
      | t => afterExpression [] (some t) rest

/-- Past the `elseif` and `else` branches of a condition. -/
def afterBranches : Nat → List Token → List Token
  | 0, _ => []
  | fuel + 1, ts =>
    if nextIsKeyword "elseif" ts then
      afterBranches fuel (afterStatement fuel (afterGroup (dropNext ts)))
    else if nextIsKeyword "else" ts then afterStatement fuel (dropNext ts)
    else ts

/-- Past the body of a loop, given its keyword. -/
def afterLoop (keyword : String) : Nat → List Token → List Token
  | 0, _ => []
  | fuel + 1, ts =>
    if nextIsMark ":" ts then afterColonBlock keyword fuel (dropNext ts) else afterStatement fuel ts

/-- Past the `catch` and `finally` blocks. -/
def afterHandlers : Nat → List Token → List Token
  | 0, _ => []
  | fuel + 1, ts =>
    if nextIsKeyword "catch" ts then
      afterHandlers fuel (afterGroup (afterGroup (dropNext ts)))
    else if nextIsKeyword "finally" ts then afterHandlers fuel (afterGroup (dropNext ts))
    else ts

/-- Past the block after a colon, its closing word and its semicolon. -/
def afterColonBlock (keyword : String) : Nat → List Token → List Token
  | 0, _ => []
  | fuel + 1, ts =>
    match dropTrivia ts with
    | [] => []
    | .mark "\x7d" :: rest => .mark "\x7d" :: rest
    | ts =>
      if nextIsKeyword (closerOf keyword) ts then afterSemicolon (dropNext ts)
      else if nextIsKeyword "elseif" ts then
        let body := afterGroup (dropNext ts)
        afterColonBlock keyword fuel (if nextIsMark ":" body then dropNext body else body)
      else if nextIsKeyword "else" ts then
        let body := dropNext ts
        afterColonBlock keyword fuel (if nextIsMark ":" body then dropNext body else body)
      else afterColonBlock keyword fuel (afterStatement fuel ts)

end

end SiteAssist.Php
