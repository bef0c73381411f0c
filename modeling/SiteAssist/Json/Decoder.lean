import SiteAssist.Json.Value

/-!
# Decoding JSON values into records

A decoder takes a JSON value to a value of the library, or says how the JSON departs from the shape
it asks for. `ShapeError.message` is the wording of that. A record is decoded from an object, whose
unknown members are ignored, or from an array with its fields in order. The members of an object
are visited in key order, so of two faults the one under the smaller key is reported, and a missing
field only when all members are well.
-/

namespace SiteAssist.Json

/-- What a decoder asks for. -/
inductive Expectation where
  | boolean
  | string
  | sequence
  /-- a natural number below `2^32` -/
  | word
  /-- an integer of 32 bits -/
  | integer
  /-- an array of that many items -/
  | tuple (size : Nat)
  /-- one of several names -/
  | variant
  /-- the content of a variant that has none -/
  | unit
  /-- a record, by its name -/
  | record (name : String)
  | singleKeyMap
  | recordItems (name : String) (count : Nat)
  | fewerItems

/-- How a value departs from the shape asked for. -/
inductive ShapeError where
  | missingField (name : String)
  | unknownVariant (name : String) (known : List String)
  | wrongType (found : Json) (expected : Expectation)
  | wrongValue (found : Json) (expected : Expectation)
  | wrongLength (found : Nat) (expected : Expectation)
  | noVariant (name : String)

/-- The words for what is asked for. -/
def Expectation.text : Expectation → String
  | .boolean => "a boolean"
  | .string => "a string"
  | .sequence => "a sequence"
  | .word => "u32"
  | .integer => "i32"
  | .tuple n => "a tuple of size " ++ toString n
  | .variant => "string or map"
  | .unit => "unit"
  | .record name => "struct " ++ name
  | .singleKeyMap => "map with a single key"
  | .recordItems name n =>
    "struct " ++ name ++ " with " ++ toString n ++ (if n = 1 then " element" else " elements")
  | .fewerItems => "fewer elements in array"

/-- The words for what was found. -/
def foundText : Json → String
  | .null => "null"
  | .bool b => "boolean `" ++ (if b then "true" else "false") ++ "`"
  | .number (.integer z) => "integer `" ++ toString z ++ "`"
  | .number (.float x) => "floating point `" ++ floatStyle.show x ++ "`"
  | .string s => "string " ++ String.ofList (Text.showQuoted s.toList)
  | .array _ => "sequence"
  | .object _ => "map"

/-- The names that a variant may have. -/
def variantsText (known : List String) : String :=
  let quoted := known.map fun v => "`" ++ v ++ "`"
  match quoted with
  | [] => "there are no variants"
  | [a] => "expected " ++ a
  | [a, b] => "expected " ++ a ++ " or " ++ b
  | vs => "expected one of " ++ ", ".intercalate vs

/-- The wording of a departure. -/
def ShapeError.message : ShapeError → String
  | .missingField name => "missing field `" ++ name ++ "`"
  | .unknownVariant name known => "unknown variant `" ++ name ++ "`, " ++ variantsText known
  | .wrongType found expected =>
    "invalid type: " ++ foundText found ++ ", expected " ++ expected.text
  | .wrongValue found expected =>
    "invalid value: " ++ foundText found ++ ", expected " ++ expected.text
  | .wrongLength n expected => "invalid length " ++ toString n ++ ", expected " ++ expected.text
  | .noVariant name => "data did not match any variant of untagged enum " ++ name

/-- A decoder of values. -/
abbrev Decoder (α : Type) := Json → Except ShapeError α

namespace Decoder

/-- A truth value. -/
def bool : Decoder Bool
  | .bool b => .ok b
  | v => .error (.wrongType v .boolean)

/-- A text. -/
def string : Decoder String
  | .string s => .ok s
  | v => .error (.wrongType v .string)

/-- The bound of the numbers that count lines and columns. -/
def wordLimit : Nat := Nat.pow 2 32

/-- A natural number below `2^32`. -/
def word : Decoder Nat
  | .number (.integer (.ofNat n)) =>
    if n < wordLimit then .ok n else .error (.wrongValue (Json.nat n) .word)
  | .number (.integer (.negSucc n)) => .error (.wrongValue (Json.int (.negSucc n)) .word)
  | v => .error (.wrongType v .word)

/-- An integer of 32 bits. -/
def integer : Decoder Int
  | .number (.integer z) =>
    if -(Nat.pow 2 31 : Int) ≤ z ∧ z < Nat.pow 2 31 then .ok z
    else .error (.wrongValue (Json.int z) .integer)
  | v => .error (.wrongType v .integer)

/-- Any value. -/
def any : Decoder Json := .ok

/-- A value or `null`. -/
def optional (item : Decoder α) : Decoder (Option α)
  | .null => .ok none
  | v => (item v).map some

/-- A list. -/
def list (item : Decoder α) : Decoder (List α)
  | .array items => items.mapM item
  | v => .error (.wrongType v .sequence)

/-- An array of exactly that many items. -/
def tuple (size : Nat) (item : Decoder α) : Decoder (List α)
  | .array items =>
    match (items.take size).mapM item with
    | .error e => .error e
    | .ok as =>
      if items.length < size then .error (.wrongLength items.length (.tuple size))
      else if size < items.length then .error (.wrongLength items.length .fewerItems)
      else .ok as
  | v => .error (.wrongType v (.tuple size))

/-- One of several named values, as a string or as the only key of an object that holds
`null`. -/
def variant (known : List (String × α)) : Decoder α :=
  let named (name : String) : Except ShapeError α :=
    match known.lookup name with
    | some a => .ok a
    | none => .error (.unknownVariant name (known.map Prod.fst))
  fun
  | .string name => named name
  | .object [(name, content)] =>
    match named name with
    | .error e => .error e
    | .ok a => if content.isNull then .ok a else .error (.wrongType content .unit)
  | .object members => .error (.wrongValue (.object members) .singleKeyMap)
  | v => .error (.wrongType v .variant)

/-- One field of a record: its name, how its value is taken into the record, and whether an
array that ends before it will do. -/
structure Field (σ : Type) where
  name : String
  defaulted : Bool
  decode : σ → Decoder σ

/-- The members of an object as fields, unknown ones ignored. -/
def fieldsOfMembers (fields : List (Field σ)) (start : σ) (members : List (String × Json)) :
    Except ShapeError σ :=
  members.foldlM (fun state (key, value) =>
    match fields.find? (·.name == key) with
    | some field => field.decode state value
    | none => .ok state) start

/-- The items of an array as fields in order. -/
def fieldsOfItems (name : String) (count given : Nat) :
    List (Field σ) → List Json → σ → Except ShapeError σ
  | [], [], state => .ok state
  | [], _ :: _, _ => .error (.wrongLength given .fewerItems)
  | field :: fields, [], state =>
    if field.defaulted then fieldsOfItems name count given fields [] state
    else .error (.wrongLength given (.recordItems name count))
  | field :: fields, item :: items, state =>
    match field.decode state item with
    | .error e => .error e
    | .ok state => fieldsOfItems name count given fields items state

/-- A record from an object or an array. -/
def record (name : String) (fields : List (Field σ)) (start : σ) : Decoder σ
  | .object members => fieldsOfMembers fields start members
  | .array items => fieldsOfItems name fields.length items.length fields items start
  | v => .error (.wrongType v (.record name))

/-- A field's value, which has to be present. -/
def required (name : String) : Option α → Except ShapeError α
  | some a => .ok a
  | none => .error (.missingField name)

end Decoder

end SiteAssist.Json
