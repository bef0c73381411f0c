import SiteAssist.Yaml.Node

/-!
# The value of a YAML document

A value is what the nodes of a document mean: null, truth values, numbers, texts, sequences,
mappings, and values under a tag of the document's own (`!name`). A plain scalar means what it looks
like, and a text if it looks like nothing else; any other scalar is a text. The tags of the core
schema demand their kind; other tags than these and the document's own make a text of a scalar and
say nothing of a collection.

An alias means the node it refers to, resolved again in its place. Collections nest at most 128
deep, aliases that refer to what they stand in included, and a document may follow at most a hundred
aliases for each mark it is made of. No mapping has a key twice.
-/

namespace SiteAssist.Yaml

/-- A value. -/
inductive Value where
  | null
  | bool (value : Bool)
  | integer (value : Int)
  | float (value : Float)
  | string (text : String)
  | sequence (items : List Value)
  | mapping (entries : List (Value × Value))
  | tagged (tag : String) (value : Value)

namespace Value

/-- Two floating point numbers are the same; there is one value that is no number. -/
def sameFloat (x y : Float) : Bool := (x.isNaN && y.isNaN) || x == y

mutual

/-- Two values are the same. Integers and floats never are, and the order of the entries of a
mapping does not count. -/
def same : Value → Value → Bool
  | .null, .null => true
  | .bool a, .bool b => a == b
  | .integer a, .integer b => a == b
  | .float a, .float b => sameFloat a b
  | .string a, .string b => a == b
  | .sequence as, .sequence bs => sameItems as bs
  | .mapping as, .mapping bs => as.length == bs.length && entriesIn as bs
  | .tagged s a, .tagged t b => s == t && same a b
  | _, _ => false

/-- Two lists of values are the same item by item. -/
def sameItems : List Value → List Value → Bool
  | [], [] => true
  | a :: as, b :: bs => same a b && sameItems as bs
  | _, _ => false

/-- Every entry occurs among the others. -/
def entriesIn : List (Value × Value) → List (Value × Value) → Bool
  | [], _ => true
  | (k, v) :: rest, others =>
    (match others.find? fun e => same k e.1 with
     | some e => same v e.2
     | none => false) && entriesIn rest others

end

/-- A value without its tags. -/
def untagged : Value → Value
  | .tagged _ v => untagged v
  | v => v

/-- The text of a string, tagged or not. -/
def asString? (v : Value) : Option String :=
  match v.untagged with
  | .string s => some s
  | _ => none

/-- The entries of a mapping, tagged or not. -/
def asMapping? (v : Value) : Option (List (Value × Value)) :=
  match v.untagged with
  | .mapping entries => some entries
  | _ => none

end Value

/-! ## Scalars -/

namespace Scalar

/-- A text without a plus sign before it. -/
def dropPlus (s : List Char) : List Char :=
  match s with
  | '+' :: rest => rest
  | _ => s

/-- The text starts with a sign. -/
def isSigned (s : List Char) : Bool := s.head? == some '+' || s.head? == some '-'

/-- The number written in digits of a base, of which there is at least one. -/
def natInBase? (base : Nat) (s : List Char) : Option Nat :=
  if s.isEmpty then none
  else s.foldl (fun acc c => acc.bind fun n =>
    ((Text.hexValue? c).filter (· < base)).map (base * n + ·)) (some 0)

/-- The based numeral after a mark such as `0x`, and its base. -/
def based? (s : List Char) : Option (Nat × List Char) :=
  match s with
  | '0' :: 'x' :: rest => some (16, rest)
  | '0' :: 'o' :: rest => some (8, rest)
  | '0' :: 'b' :: rest => some (2, rest)
  | _ => none

/-- Digits with a leading zero are no number. -/
def isZeroLed (s : List Char) : Bool :=
  let digits := if isSigned s then s.drop 1 else s
  1 < digits.length && digits.head? == some '0' && digits.all Char.isDigit

/-- An integer that is not negative. -/
def natural? (s : List Char) : Option Nat :=
  let t := dropPlus s
  match based? t with
  | some (base, digits) => natInBase? base digits
  | none => if isSigned t ∨ isZeroLed s then none else natInBase? 10 t

/-- The number of digits after a minus sign. -/
def negated? (s : List Char) : Option Nat :=
  match s with
  | '-' :: rest =>
    match based? rest with
    | some (base, digits) => natInBase? base digits
    | none => if isZeroLed s then none else natInBase? 10 rest
  | _ => none

/-- An integer of 64 bits, or a fault if it takes more, up to 128; what takes more yet is no
integer. -/
def integer? (s : List Char) : Option (Except Fault Int) :=
  match natural? s with
  | some n =>
    if n < Nat.pow 2 64 then some (.ok n)
    else if n < Nat.pow 2 128 then some (.error .scalar)
    else none
  | none =>
    match negated? s with
    | some n =>
      if n ≤ Nat.pow 2 63 then some (.ok (-(n : Int)))
      else if n ≤ Nat.pow 2 127 then some (.error .scalar)
      else none
    | none => none

/-- The double of `m · 10^e`, if it is finite. -/
def scaled? (m : Nat) (e : Int) : Option Float :=
  let size : Int := (Nat.toDigits 10 m).length + e
  if m = 0 ∨ size < -400 then some 0.0
  else if 400 < size then none
  else
    let x := match e with
      | .ofNat k => Float.ofScientific (m * Nat.pow 10 k) false 0
      | .negSucc k => Float.ofScientific m true (k + 1)
    if x.isInf then none else some x

/-- The exponent after the digits of a decimal, which may be left out. -/
def exponent? (s : List Char) : Option Int :=
  match s with
  | [] => some 0
  | c :: rest =>
    if c ≠ 'e' ∧ c ≠ 'E' then none
    else match rest with
      | '-' :: digits => (natInBase? 10 digits).map fun n => -(n : Int)
      | _ => (natInBase? 10 (dropPlus rest)).map Int.ofNat

/-- A decimal without a sign: digits, with or without a point, and an exponent. -/
def unsignedDecimal? (s : List Char) : Option Float :=
  let (whole, rest) := s.span Char.isDigit
  let (places, rest) := match rest with
    | '.' :: rest => rest.span Char.isDigit
    | _ => ([], rest)
  match natInBase? 10 (whole ++ places), exponent? rest with
  | some m, some e => scaled? m (e - places.length)
  | _, _ => none

/-- A floating point number, one of the names of the infinities and of what is no number
included. -/
def float? (s : List Char) : Option Float :=
  let t := dropPlus s
  let text := String.ofList t
  if t.length < s.length ∧ isSigned t then none
  else if text = ".inf" ∨ text = ".Inf" ∨ text = ".INF" then some (1.0 / 0.0)
  else if text = "-.inf" ∨ text = "-.Inf" ∨ text = "-.INF" then some (-1.0 / 0.0)
  else if t.length = s.length ∧ (text = ".nan" ∨ text = ".NaN" ∨ text = ".NAN") then
    some (0.0 / 0.0)
  else match t with
    | '-' :: rest => (unsignedDecimal? rest).map fun x => -x
    | _ => unsignedDecimal? t

/-- A name of null. -/
def isNull (text : String) : Bool :=
  text = "null" ∨ text = "Null" ∨ text = "NULL" ∨ text = "~"

/-- A name of a truth value. -/
def bool? (text : String) : Option Bool :=
  if text = "true" ∨ text = "True" ∨ text = "TRUE" then some true
  else if text = "false" ∨ text = "False" ∨ text = "FALSE" then some false
  else none

/-- What a plain scalar looks like. -/
def plain (text : String) : Except Fault Value :=
  if text = "" ∨ isNull text then .ok .null
  else match bool? text with
    | some b => .ok (.bool b)
    | none =>
      match integer? text.toList with
      | some z => z.map .integer
      | none =>
        if isZeroLed text.toList then .ok (.string text)
        else match float? text.toList with
          | some x => .ok (.float x)
          | none => .ok (.string text)

/-- The lead of the core schema's tags. -/
def coreTag (kind : String) : String := "tag:yaml.org,2002:" ++ kind

/-- A scalar under a tag that is not the document's own. -/
def underTag (tag text : String) : Except Fault Value :=
  let demanded (v : Option Value) : Except Fault Value :=
    match v with
    | some v => .ok v
    | none => .error .scalar
  if tag = coreTag "bool" then demanded ((bool? text).map .bool)
  else if tag = coreTag "int" then
    match integer? text.toList with
    | some z => z.map .integer
    | none => .error .scalar
  else if tag = coreTag "float" then demanded ((float? text.toList).map .float)
  else if tag = coreTag "null" then demanded (if isNull text then some .null else none)
  else .ok (.string text)

end Scalar

/-! ## Nodes -/

/-- A tag without its exclamation mark, unless it is nothing else. -/
def dropMark (tag : List Char) : List Char :=
  match tag with
  | '!' :: c :: rest => c :: rest
  | _ => tag

/-- The name of a tag of the document's own. -/
def ownTag? (tag : Option String) : Option String :=
  tag.bind fun t =>
    if t.toList.head? = some '!' then some (String.ofList (dropMark (dropMark t.toList))) else none

/-- The deepest nesting of collections. -/
def depthLimit : Nat := 128

/-- How many aliases may be followed for each mark. -/
def aliasesPerMark : Nat := 100

/-- A resolver, counting the aliases that may still be followed. -/
abbrev Resolver := StateT Nat (Except Fault)

namespace Document

/-- The node that an alias stands for, or the node itself. -/
def target (d : Document) : Node → Resolver Node
  | .alias anchor => do
    match ← get with
    | 0 => throw .repetition
    | n + 1 =>
      set n
      match d.anchored.lookup anchor with
      | some node => return node
      | none => throw .alias
  | node => return node

/-- A value under a tag of the document's own, if there is one. -/
def tag (t : Option String) (v : Value) : Value :=
  match ownTag? t with
  | some name => .tagged name v
  | none => v

/-- The entries of a mapping, no key twice. -/
def entries (resolve : Node → Resolver Value) :
    List (Value × Value) → List (Node × Node) → Resolver (List (Value × Value))
  | done, [] => return done.reverse
  | done, (k, v) :: rest => do
    let key ← resolve k
    if done.any (Value.same key ·.1) then throw .duplicateKey
    let value ← resolve v
    entries resolve ((key, value) :: done) rest

/-- The value of a scalar. -/
def scalarValue (t : Option String) (style : Style) (text : String) : Except Fault Value :=
  match t with
  | some name =>
    if (ownTag? t).isNone then Scalar.underTag name text
    else (if style = .plain then Scalar.plain text else .ok (.string text)).map (tag t)
  | none => if style = .plain then Scalar.plain text else .ok (.string text)

/-- The value of a node, nested so deep at most. -/
def resolve (d : Document) : Nat → Node → Resolver Value
  | depth, node => do
    match ← d.target node, depth with
    | .scalar t style text, _ => scalarValue t style text
    | .sequence t items, depth + 1 => return tag t (.sequence (← items.mapM (resolve d depth)))
    | .mapping t es, depth + 1 => return tag t (.mapping (← entries (resolve d depth) [] es))
    | .alias _, _ => throw .alias
    | _, 0 => throw .nesting

/-- The value of a document. -/
def value (d : Document) : Except Fault Value :=
  ((resolve d depthLimit d.root).run (aliasesPerMark * d.size)).map (·.1)

end Document

/-- The value of a YAML text of one document; an empty text means null. -/
def parse (text : String) : Except Fault Value := do
  match ← Document.ofTokens? (← tokens text.toList) with
  | none => .ok .null
  | some d => d.value

end SiteAssist.Yaml
