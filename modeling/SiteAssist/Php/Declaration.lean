import SiteAssist.Php.Statement

/-!
# Declarations of a PHP file

The outline of a file lists what it declares, in order: functions with their heads, global
variables, the methods of classes, interfaces and traits, and what stands in blocks of braces, those
of namespaces included. What a condition, a loop or a function declares is no part of it, and
neither are enumerations.

A declaration is documented by the comment right before it, if that is a documentation comment:
nothing but white space may stand between. Attributes belong to the declaration, so the comment
stands before them.
-/

namespace SiteAssist.Php

/-- The head of a function: its name, the parameters as they are written, and all of it up to
the body, attributes included. -/
structure Head where
  name : String
  parameters : List String
  signature : String
  deriving Repr, DecidableEq

/-- A method and its documentation comment. -/
structure Method where
  name : String
  doc : Option String
  deriving Repr, DecidableEq

/-- A class, interface or trait and its methods. -/
structure ClassLike where
  name : String
  methods : List Method
  deriving Repr, DecidableEq

/-- A declaration, with the documentation comment before it. -/
inductive Declaration where
  | function (doc : Option String) (head : Head)
  | global (doc : Option String) (name : String)
  | classLike (declared : ClassLike)
  /-- a block of braces, or that of a namespace -/
  | block (inner : List Declaration)

/-- A comment, if it is a documentation comment. -/
def documentation? (comment : String) : Option String :=
  if (Text.stripPrefix? "/**".toList comment.toList).isSome then some comment else none

/-- Past the attributes that are next. -/
def afterAttributes : Nat → List Token → List Token
  | 0, ts => ts
  | fuel + 1, ts => if nextIsMark "#[" ts then afterAttributes fuel (afterGroup ts) else ts

/-- The tokens of a head and what follows it, which starts with the brace, semicolon or brace
that ends the head. A parameter list that never ends ends at a brace too, or before a word that
starts a statement. -/
def splitHead (open' : List Bracket) (previous : Option Token) :
    List Token → List Token × List Token
  | [] => ([], [])
  | t :: ts =>
    let go (open' : List Bracket) (previous : Option Token) : List Token × List Token :=
      let (head, rest) := splitHead open' previous ts
      (t :: head, rest)
    match t with
    | .mark m =>
      if open'.isEmpty ∧ (m = "\x7b" ∨ m = ";" ∨ m = "\x7d") then ([], t :: ts)
      else if open' = [.round] ∧ m = "\x7b" then ([], t :: ts)
      else go (bracketsAfter m false open') (some t)
    | .word s =>
      if open' = [.round] ∧ startsStatement previous (lower s) ts then ([], t :: ts)
      else go open' (some t)
    | _ => go open' previous

/-- Tokens without the trivia at both ends. -/
def trimTrivia (ts : List Token) : List Token :=
  ((dropTrivia ts).reverse.dropWhile Token.isTrivia).reverse

/-- The items of a list between commas, up to the mark that ends it. -/
def listItems (open' : List Bracket) (item : List Token) : List Token → List (List Token)
  | [] => [item.reverse]
  | t :: ts =>
    match t with
    | .mark m =>
      if open'.isEmpty ∧ m = "," then item.reverse :: listItems open' [] ts
      else if open'.isEmpty ∧ (m = ")" ∨ m = ";" ∨ m = "\x7d") then [item.reverse]
      else listItems (bracketsAfter m false open') (t :: item) ts
    | _ => listItems open' (t :: item) ts

/-- The items of a list, without trivia around them and without empty ones. -/
def trimmedItems (ts : List Token) : List (List Token) :=
  ((listItems [] [] ts).map trimTrivia).filter (!·.isEmpty)

/-- The name of a function after its keyword, and what follows it. -/
def nameOf? (ts : List Token) : Option (String × List Token) :=
  let ts := if nextIsMark "&" ts then dropNext ts else ts
  match dropTrivia ts with
  | .word name :: rest => some (name, rest)
  | _ => none

/-- The head of a function from its tokens, attributes included. -/
def Head.ofTokens? (ts : List Token) : Option Head :=
  let named := dropNext (afterAttributes ts.length ts)
  (nameOf? named).bind fun (name, rest) =>
    if nextIsMark "(" rest then
      some
        { name
          parameters := (trimmedItems (dropNext rest)).map Token.written
          signature := String.ofList (Text.trimEnd (Token.written ts).toList) }
    else none

/-! ## Members -/

/-- The words before a member. -/
def modifiers : List String :=
  ["public", "protected", "private", "static", "abstract", "final", "readonly", "var"]

/-- The words that start a member. -/
def memberStarters : List String :=
  ["public", "protected", "private", "abstract", "final", "var", "function", "const", "use", "case"]

/-- Past the modifiers of a member. -/
def afterModifiers : Nat → List Token → List Token
  | 0, ts => ts
  | fuel + 1, ts =>
    match (dropTrivia ts).head?.bind Token.keyword? with
    | some k => if modifiers.contains k then afterModifiers fuel (dropNext ts) else ts
    | none => ts

/-- Past a member that is no method: its semicolon or its block, or up to where the next member
starts. -/
def afterMember (open' : List Bracket) (named : Bool) : List Token → List Token
  | [] => []
  | t :: ts =>
    match t with
    | .mark m =>
      if open'.isEmpty ∧ m = ";" then ts
      else if open'.isEmpty ∧ m = "\x7d" then t :: ts
      else
        let now := bracketsAfter m false open'
        if (m = ";" ∨ (m = "\x7d" ∧ open' = [.brace])) ∧ now.isEmpty then ts
        else afterMember now (named || m == "$") ts
    | .word s =>
      if open'.isEmpty && named && memberStarters.contains (lower s) then t :: ts
      else afterMember open' named ts
    | _ => afterMember open' named ts

/-- Past the rest of a method after its name. -/
def afterMethod (ts : List Token) : List Token :=
  let rest := (afterGroup ts).dropWhile fun t =>
    !(["\x7b", ";", "\x7d"].any fun m => t == .mark m)
  if nextIsMark "\x7b" rest then afterGroup rest else afterSemicolon rest

/-- The methods in the body of a class, up to its closing brace, and what follows. -/
def members (doc : Option String) : Nat → List Token → List Method × List Token
  | 0, _ => ([], [])
  | _, [] => ([], [])
  | fuel + 1, t :: ts =>
    match t with
    | .blank _ => members doc fuel ts
    | .comment c => members (documentation? c) fuel ts
    | .outside _ => members none fuel ts
    | .mark "\x7d" => ([], ts)
    | .mark ";" => members none fuel ts
    | t =>
      let body := afterModifiers (ts.length + 1) (afterAttributes (ts.length + 1) (t :: ts))
      if nextIsKeyword "function" body then
        match nameOf? (dropNext body) with
        | some (name, rest) =>
          let (found, rest) := members none fuel (afterMethod rest)
          (⟨name, doc⟩ :: found, rest)
        | none => members none fuel (afterMember [] false (dropNext body))
      else
        -- a member starts with a token of its own, so that something is always passed
        match t with
        | .mark m => members none fuel (afterMember (bracketsAfter m false []) (m == "$") ts)
        | _ => members none fuel (afterMember [] false ts)

/-! ## Declarations -/

/-- The keywords of what has methods. -/
def typeKeywords : List String := ["class", "interface", "trait"]

/-- Past the words that may precede `class`. -/
def afterClassModifiers : Nat → List Token → List Token
  | 0, ts => ts
  | fuel + 1, ts =>
    match (dropTrivia ts).head?.bind Token.keyword? with
    | some k =>
      if ["abstract", "final", "readonly"].contains k then afterClassModifiers fuel (dropNext ts)
      else ts
    | none => ts

/-- The first plain variable of a list; one whose name is computed is passed over. -/
def firstVariable? (ts : List Token) : Option String :=
  (trimmedItems ts).findSome? fun item =>
    match item.filter (!·.isTrivia) with
    | [.mark "$", .word _] => some (Token.written item)
    | _ => none

mutual

/-- The declarations up to a closing brace, if they are in a block, or the end, and what
follows. -/
def declarations (nested : Bool) (doc : Option String) :
    Nat → List Token → List Declaration × List Token
  | 0, _ => ([], [])
  | _, [] => ([], [])
  | fuel + 1, t :: ts =>
    match t with
    | .blank _ => declarations nested doc fuel ts
    | .comment c => declarations nested (documentation? c) fuel ts
    | .outside _ => declarations nested none fuel ts
    | .mark "\x7d" => if nested then ([], ts) else declarations nested none fuel ts
    | .mark ";" => declarations nested none fuel ts
    | t =>
      let (found, rest) := declaration doc fuel (t :: ts)
      let (more, rest) := declarations nested none fuel rest
      (found ++ more, rest)

/-- The declaration here, if the statement is one that counts, and what follows. -/
def declaration (doc : Option String) : Nat → List Token → List Declaration × List Token
  | 0, _ => ([], [])
  | fuel + 1, ts =>
    let body := afterAttributes ts.length ts
    let other := ([], afterStatement (ts.length + 1) ts)
    let block (rest : List Token) : List Declaration × List Token :=
      let (inner, rest) := declarations true none fuel rest
      ([.block inner], rest)
    match dropTrivia body with
    | .mark "\x7b" :: rest => block rest
    | .word s :: rest =>
      match lower s with
      | "function" =>
        if ¬startsStatement none "function" rest then other
        else
          let (head, rest) := splitHead [] none ts
          if ¬nextIsMark "\x7b" rest then ([], rest)
          else match Head.ofTokens? head with
            | some h => ([.function doc h], afterGroup rest)
            | none => ([], afterGroup rest)
      | "global" =>
        ((firstVariable? rest).toList.map (Declaration.global doc), other.2)
      | "namespace" =>
        if rest.head? = some (.mark "\\") then other
        else
          let (_, rest) := splitHead [] none rest
          if nextIsMark "\x7b" rest then block (dropNext rest) else ([], afterSemicolon rest)
      | _ =>
        let named := afterClassModifiers (body.length) body
        match (dropTrivia named).head?.bind Token.keyword?, nextWord? (dropNext named) with
        | some k, some name =>
          if typeKeywords.contains k then
            let (_, rest) := splitHead [] none named
            if ¬nextIsMark "\x7b" rest then ([], rest)
            else
              let (methods, rest) := members none (rest.length + 1) (dropNext rest)
              ([.classLike ⟨name, methods⟩], rest)
          else other
        | _, _ => other
    | _ => other

end

/-- The outline of a file. -/
def outline (source : String) : List Declaration :=
  let ts := tokens source
  (declarations false none (2 * ts.length + 2) ts).1

mutual

/-- The methods that a declaration declares, those in its blocks included. -/
def Declaration.methods : Declaration → List Method
  | .classLike declared => declared.methods
  | .block inner => methodsOf inner
  | .function .. => []
  | .global .. => []

/-- The methods of several declarations, in order. -/
def methodsOf : List Declaration → List Method
  | [] => []
  | d :: ds => d.methods ++ methodsOf ds

end

/-- The documentation comment of a method. Of several methods of one name the last counts. -/
def Method.docIn? (methods : List Method) (name : String) : Option String :=
  (methods.reverse.find? (·.name = name)).bind (·.doc)

end SiteAssist.Php
