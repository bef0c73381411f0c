import SiteAssist.Text.Basic

/-!
# Glob patterns

A pattern is a text with wildcards: `?` for one character, `*` for a run within one path component,
`**` as a whole component for any number of components, and a bracket for one character of a class.
No wildcard but `**` matches a separator.

`Pattern.parse` turns the text into tokens or says which rule it breaks and where. `matchTokens`
reads tokens against a text from the left; it tells a mismatch that a longer run might mend from the
text's end, after which no longer run can help.
-/

namespace SiteAssist.Glob

/-- One member of a character class. -/
inductive ClassItem where
  | single (c : Char)
  | range (lo hi : Char)
  deriving Repr, DecidableEq

/-- One element of a pattern. -/
inductive Token where
  | literal (c : Char)
  | anyChar
  /-- a run that stays within a component -/
  | anyRun
  /-- any number of whole components -/
  | anyDepth
  | within (items : List ClassItem)
  | except (items : List ClassItem)
  deriving Repr, DecidableEq

/-- The rule that a text breaks. -/
inductive Rule where
  | wildcards
  | wholeComponent
  | range
  deriving Repr, DecidableEq

/-- A broken rule and the character at which it shows. -/
structure PatternError where
  position : Nat
  rule : Rule
  deriving Repr, DecidableEq

/-- The wording of a rule. -/
def Rule.message : Rule → String
  | .wildcards => "wildcards are either regular `*` or recursive `**`"
  | .wholeComponent => "recursive wildcards must form a single path component"
  | .range => "invalid range pattern"

/-- The wording of an error. -/
def PatternError.message (e : PatternError) : String :=
  "Pattern syntax error near position " ++ toString e.position ++ ": " ++ e.rule.message

/-- The members of a class, from what stands between its brackets. -/
def classItems : List Char → List ClassItem
  | lo :: '-' :: hi :: rest => .range lo hi :: classItems rest
  | c :: rest => .single c :: classItems rest
  | [] => []

/-- A class, from what follows its opening bracket, and the rest of the pattern. The first
member may be a closing bracket; a leading `!` asks for any other character. -/
def parseClass? (s : List Char) : Option (Token × List Char) :=
  match s with
  | '!' :: first :: rest =>
    (Text.cutAtFirst? (· == ']') rest).map fun (inner, rest) =>
      (.except (classItems (first :: inner)), rest)
  | ['!'] => none
  | first :: rest =>
    (Text.cutAtFirst? (· == ']') rest).map fun (inner, rest) =>
      (.within (classItems (first :: inner)), rest)
  | [] => none

/-- The tokens of a pattern from a position on, given whether a component starts there. -/
def parseFrom (position : Nat) (atStart : Bool) (s : List Char) (fuel : Nat) :
    Except PatternError (List Token) :=
  match fuel, s with
  | 0, _ => .ok []
  | _, [] => .ok []
  | fuel + 1, '*' :: rest =>
    match rest with
    | '*' :: '*' :: _ => .error ⟨position + 2, .wildcards⟩
    | '*' :: rest =>
      if ¬atStart then .error ⟨position - 1, .wholeComponent⟩
      else match rest with
        | [] => .ok [.anyDepth]
        | '/' :: rest => (parseFrom (position + 3) true rest fuel).map (.anyDepth :: ·)
        | _ => .error ⟨position + 2, .wholeComponent⟩
    | rest => (parseFrom (position + 1) false rest fuel).map (.anyRun :: ·)
  | fuel + 1, '?' :: rest => (parseFrom (position + 1) false rest fuel).map (.anyChar :: ·)
  | fuel + 1, '[' :: rest =>
    match parseClass? rest with
    | none => .error ⟨position, .range⟩
    | some (token, after) =>
      (parseFrom (position + 1 + (rest.length - after.length)) false after fuel).map (token :: ·)
  | fuel + 1, c :: rest => (parseFrom (position + 1) (c == '/') rest fuel).map (.literal c :: ·)

/-- A parsed pattern and its text. -/
structure Pattern where
  source : String
  tokens : List Token
  deriving Repr, DecidableEq

/-- The pattern of a text. -/
def Pattern.parse (source : String) : Except PatternError Pattern :=
  let text := source.toList
  (parseFrom 0 true text (text.length + 1)).map (Pattern.mk source)

/-- A character that means something in a pattern. -/
def isMeta (c : Char) : Bool := c == '?' || c == '*' || c == '[' || c == ']'

/-- A text whose wildcards and brackets stand for themselves. -/
def escape (text : List Char) : List Char :=
  text.flatMap fun c => if isMeta c then ['[', c, ']'] else [c]

/-- A character is a member of a class. -/
def ClassItem.has (c : Char) : ClassItem → Bool
  | .single d => c == d
  | .range lo hi => lo ≤ c && c ≤ hi

/-- How reading a text against tokens ends. -/
inductive Outcome where
  | full
  /-- the tokens do not fit here, but may further on -/
  | mismatch
  /-- the text ended before the tokens -/
  | exhausted
  deriving Repr, DecidableEq

/-- A single character fits a token that stands for one. -/
def Token.fits (c : Char) : Token → Bool
  | .literal d => c == d
  | .anyChar => c != '/'
  | .within items => c != '/' && items.any (·.has c)
  | .except items => c != '/' && !items.any (·.has c)
  | _ => false

/-- A run within a component, longer and longer, until what follows fits. -/
def scanRun (rest : List Char → Outcome) : List Char → Outcome
  | [] => rest []
  | c :: cs =>
    if c == '/' then .mismatch
    else match rest cs with
      | .mismatch => scanRun rest cs
      | out => out

/-- A run of whole components, longer and longer, until what follows fits. -/
def scanDepth (rest : List Char → Outcome) : List Char → Outcome
  | [] => rest []
  | c :: cs =>
    if c != '/' then scanDepth rest cs
    else match rest cs with
      | .mismatch => scanDepth rest cs
      | out => out

/-- A text read against tokens. -/
def matchTokens : List Token → List Char → Outcome
  | [], [] => .full
  | [], _ :: _ => .mismatch
  | .anyRun :: ts, s =>
    match matchTokens ts s with
    | .mismatch => scanRun (matchTokens ts) s
    | out => out
  | .anyDepth :: ts, s =>
    match matchTokens ts s with
    | .mismatch => scanDepth (matchTokens ts) s
    | out => out
  | _ :: _, [] => .exhausted
  | t :: ts, c :: cs => if t.fits c then matchTokens ts cs else .mismatch

/-- The pattern matches the whole text. -/
def Pattern.fits (p : Pattern) (text : List Char) : Bool := matchTokens p.tokens text == .full

/-- The text that a pattern without wildcards stands for. -/
def Pattern.literal? (p : Pattern) : Option String :=
  (p.tokens.mapM fun
    | Token.literal c => some c
    | _ => none).map String.ofList

/-- The pattern is a component that stands for any number of components. -/
def Pattern.isRecursive (p : Pattern) : Bool := p.tokens.any (· == .anyDepth)

end SiteAssist.Glob
