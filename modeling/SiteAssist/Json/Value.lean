import SiteAssist.Decimal.Shortest
import SiteAssist.Text.Basic
import SiteAssist.Text.Class

/-!
# JSON values

A JSON value with integers and floating point numbers kept apart. The members of an object are held
in ascending order of their keys, and a key occurs once; `Json.mkObject` brings a list of members
into that form, the last value of a repeated key winning. `get?` looks a member up, `compress`
writes a value as text without blanks.
-/

namespace SiteAssist

/-- A JSON number: an integer of at most 64 bits, or a double. -/
inductive Json.Number where
  | integer (value : Int)
  | float (value : Float)

/-- A JSON value. -/
inductive Json where
  | null
  | bool (value : Bool)
  | number (value : Json.Number)
  | string (value : String)
  | array (items : List Json)
  | object (members : List (String × Json))

namespace Json

/-- Doubles are written with a point between `1e-5` and `1e15`, else with a signed exponent. -/
def floatStyle : Decimal.Style := ⟨-5, 15⟩

/-- The text of a number. -/
def Number.text : Number → String
  | .integer z => toString z
  | .float x => floatStyle.show x

/-- An integer value. -/
def int (z : Int) : Json := .number (.integer z)

/-- A natural number value. -/
def nat (n : Nat) : Json := int n

/-- A member put into ascending key order, replacing one of the same key. -/
def putMember (key : String) (value : Json) : List (String × Json) → List (String × Json)
  | [] => [(key, value)]
  | (k, v) :: rest =>
    if key = k then (key, value) :: rest
    else if Text.ordered key.toList k.toList then (key, value) :: (k, v) :: rest
    else (k, v) :: putMember key value rest

/-- The object of a list of members; of two with one key the later counts. -/
def mkObject (members : List (String × Json)) : Json :=
  .object (members.foldl (fun acc (k, v) => putMember k v acc) [])

/-- The object of those members that are present. -/
def mkObject? (members : List (String × Option Json)) : Json :=
  mkObject (members.filterMap fun (k, v) => v.map (k, ·))

/-- An optional text, `null` when absent. -/
def ofOption (f : α → Json) : Option α → Json
  | some a => f a
  | none => .null

/-- An array of texts. -/
def strings (texts : List String) : Json := .array (texts.map .string)

/-- The value of a key, if this is an object that has it. -/
def get? (key : String) : Json → Option Json
  | .object members => members.lookup key
  | _ => none

/-- The text of a string value. -/
def asString? : Json → Option String
  | .string s => some s
  | _ => none

/-- A value is `null`. -/
def isNull : Json → Bool
  | .null => true
  | _ => false

/-- One character inside a JSON string. -/
def escapeChar (c : Char) : List Char :=
  match c with
  | '"' => ['\\', '"']
  | '\\' => ['\\', '\\']
  | '\n' => ['\\', 'n']
  | '\r' => ['\\', 'r']
  | '\t' => ['\\', 't']
  | '\x08' => ['\\', 'b']
  | '\x0c' => ['\\', 'f']
  | c =>
    if c.toNat < 0x20 then
      let digits := Text.hexDigits c.toNat
      '\\' :: 'u' :: List.replicate (4 - digits.length) '0' ++ digits
    else [c]

/-- A JSON string literal. -/
def quote (s : String) : String := String.ofList ('"' :: s.toList.flatMap escapeChar ++ ['"'])

mutual

/-- A value as JSON text without blanks. -/
def compress : Json → String
  | .null => "null"
  | .bool b => if b then "true" else "false"
  | .number n => n.text
  | .string s => quote s
  | .array items => "[" ++ compressItems items ++ "]"
  | .object members => "\x7b" ++ compressMembers members ++ "\x7d"

/-- The items of an array, separated by commas. -/
def compressItems : List Json → String
  | [] => ""
  | [v] => compress v
  | v :: vs => compress v ++ "," ++ compressItems vs

/-- The members of an object, separated by commas. -/
def compressMembers : List (String × Json) → String
  | [] => ""
  | [(k, v)] => quote k ++ ":" ++ compress v
  | (k, v) :: rest => quote k ++ ":" ++ compress v ++ "," ++ compressMembers rest

end

end Json

end SiteAssist
