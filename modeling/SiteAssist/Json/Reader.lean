import SiteAssist.Json.Value

/-!
# Reading JSON text

A reader takes a text and gives a value and what is left, or the kind of fault that stopped it.
The text is `truncated` when it ends too early, `malformed` when it is no JSON, and `misshapen` when
the JSON is not of the shape that was asked for. A fault is reported where it occurs: reading
directly into a shape finds a wrong shape before any later malformed text.

`Reader.any` reads every value, `Reader.skip` passes over one without looking closely (numbers of
any size, unpaired surrogates and any nesting are let through), and `Reader.record` reads the known
fields of a record from an object, where a field may not come twice, or from an array in field
order. Values that are read may be nested `maxDepth - 1` deep.
-/

namespace SiteAssist.Json

/-- Why a text could not be read. -/
inductive Fault where
  /-- the text is no JSON, or a number or the nesting is too large -/
  | malformed
  /-- the text ends too early -/
  | truncated
  /-- the JSON has another shape than asked for -/
  | misshapen
  deriving Repr, DecidableEq

/-- A reader: from the nesting that is left and the text to a value and the rest. -/
abbrev Reader (α : Type) := Nat → List Char → Except Fault (α × List Char)

/-- One more than the deepest nesting of values. -/
def maxDepth : Nat := 128

namespace Reader

/-- The four blanks of JSON. -/
def isSpace (c : Char) : Bool := c == ' ' || c == '\n' || c == '\t' || c == '\r'

/-- The text without leading blanks. -/
def spaces (s : List Char) : List Char := s.dropWhile isSpace

/-- The rest of a keyword. -/
def keyword : List Char → List Char → Except Fault (List Char)
  | [], s => .ok s
  | _ :: _, [] => .error .truncated
  | k :: ks, c :: cs => if k = c then keyword ks cs else .error .malformed

/-- The number of four hexadecimal digits. A text of fewer than four bytes ends too early. -/
def fourHex (s : List Char) : Except Fault (Nat × List Char) :=
  match s with
  | a :: b :: c :: d :: rest =>
    match Text.hexValue? a, Text.hexValue? b, Text.hexValue? c, Text.hexValue? d with
    | some a, some b, some c, some d => .ok (((a * 16 + b) * 16 + c) * 16 + d, rest)
    | _, _, _, _ => .error .malformed
  | _ => if Text.byteLength s < 4 then .error .truncated else .error .malformed

/-- The character of an escape by letter. -/
def letterEscape? : Char → Option Char
  | '"' => some '"'
  | '\\' => some '\\'
  | '/' => some '/'
  | 'b' => some '\x08'
  | 'f' => some '\x0c'
  | 'n' => some '\n'
  | 'r' => some '\r'
  | 't' => some '\t'
  | _ => none

/-- The character of an escape by number, after its `u`. A leading surrogate has to be followed
by the escape of a trailing one. -/
def numberEscape (s : List Char) : Except Fault (Char × List Char) := do
  let (n, rest) ← fourHex s
  if 0xDC00 ≤ n ∧ n ≤ 0xDFFF then .error .malformed
  else if n < 0xD800 ∨ 0xDBFF < n then .ok (Char.ofNat n, rest)
  else match rest with
    | [] => .error .truncated
    | '\\' :: [] => .error .truncated
    | '\\' :: 'u' :: rest =>
      let (low, rest) ← fourHex rest
      if low < 0xDC00 ∨ 0xDFFF < low then .error .malformed
      else .ok (Char.ofNat (0x10000 + (n - 0xD800) * 0x400 + (low - 0xDC00)), rest)
    | _ => .error .malformed

/-- The characters of a string up to its closing quote. -/
def stringBody : Nat → List Char → Except Fault (List Char × List Char)
  | 0, _ => .error .truncated
  | _ + 1, [] => .error .truncated
  | _ + 1, '"' :: rest => .ok ([], rest)
  | _ + 1, ['\\'] => .error .truncated
  | fuel + 1, '\\' :: 'u' :: rest => do
    let (c, rest) ← numberEscape rest
    let (cs, rest) ← stringBody fuel rest
    .ok (c :: cs, rest)
  | fuel + 1, '\\' :: e :: rest =>
    match letterEscape? e with
    | some c => do
      let (cs, rest) ← stringBody fuel rest
      .ok (c :: cs, rest)
    | none => .error .malformed
  | fuel + 1, c :: rest =>
    if c.toNat < 0x20 then .error .malformed
    else do
      let (cs, rest) ← stringBody fuel rest
      .ok (c :: cs, rest)

/-- The string after its opening quote. -/
def stringRest (s : List Char) : Except Fault (String × List Char) :=
  (stringBody (s.length + 1) s).map fun (cs, rest) => (String.ofList cs, rest)

/-- What follows a string that is passed over. -/
def skipString : Nat → List Char → Except Fault (List Char)
  | 0, _ => .error .truncated
  | _ + 1, [] => .error .truncated
  | _ + 1, '"' :: rest => .ok rest
  | _ + 1, ['\\'] => .error .truncated
  | fuel + 1, '\\' :: 'u' :: rest => do
    let (_, rest) ← fourHex rest
    skipString fuel rest
  | fuel + 1, '\\' :: e :: rest =>
    if (letterEscape? e).isSome then skipString fuel rest else .error .malformed
  | fuel + 1, c :: rest =>
    if c.toNat < 0x20 then .error .malformed else skipString fuel rest

/-- The parts of a number as it is read: the significant digits that fit 64 bits, the power of
ten that scales them, and whether digits were left out. -/
structure Digits where
  value : Nat
  exponent : Int
  full : Bool

/-- The 64-bit limit on significant digits. -/
def digitLimit : Nat := Nat.pow 2 64

/-- One more digit before the point. A digit that does not fit scales the number instead. -/
def Digits.whole (ds : Digits) (c : Char) : Digits :=
  let value := ds.value * 10 + (c.toNat - 48)
  if ds.full then ⟨ds.value, ds.exponent + 1, true⟩
  else if value < digitLimit then ⟨value, ds.exponent, false⟩
  else ⟨ds.value, ds.exponent + 1, true⟩

/-- One more digit after the point. A digit that does not fit, and all after it, are dropped. -/
def Digits.fraction (ds : Digits) (c : Char) : Digits :=
  let value := ds.value * 10 + (c.toNat - 48)
  if ds.full then ds
  else if value < digitLimit then ⟨value, ds.exponent - 1, false⟩
  else ⟨ds.value, ds.exponent, true⟩

/-- The double of digits and a power of ten, scaled in the steps of the exact powers up to
`10^308`. A number that is too large is no double. -/
def scaledFloat? (value : Nat) (exponent : Int) : Option Float :=
  let start := value.toUInt64.toFloat
  let power (k : Nat) : Float := Float.ofScientific 1 false k
  let finite (x : Float) : Option Float := if x.isInf then none else some x
  let rec down (x : Float) (k : Nat) : Nat → Float
    | 0 => x
    | fuel + 1 => if k ≤ 308 then x / power k else down (x / power 308) (k - 308) fuel
  match exponent with
  | .ofNat k => if k ≤ 308 then finite (start * power k) else if value = 0 then some 0.0 else none
  | .negSucc k => if value = 0 then some 0.0 else some (down start (k + 1) 4)

/-- A double with its sign. -/
def signed (negative : Bool) (x : Float) : Number := .float (if negative then -x else x)

/-- The largest exponent that is read as a number; a larger one is zero or too large. -/
def exponentLimit : Nat := Nat.pow 2 31

/-- The number with the exponent after its `e`. -/
def exponentPart (negative : Bool) (ds : Digits) (s : List Char) :
    Except Fault (Number × List Char) :=
  let (down, s) := match s with
    | '+' :: s => (false, s)
    | '-' :: s => (true, s)
    | s => (false, s)
  match s with
  | [] => .error .truncated
  | c :: _ =>
    if ¬c.isDigit then .error .malformed
    else
      let (digits, rest) := s.span Char.isDigit
      let e := digits.foldl (fun n c => n * 10 + (c.toNat - 48)) 0
      if e ≥ exponentLimit then
        if ds.value = 0 ∨ down then .ok (signed negative 0.0, rest) else .error .malformed
      else
        match scaledFloat? ds.value (if down then ds.exponent - e else ds.exponent + e) with
        | some x => .ok (signed negative x, rest)
        | none => .error .malformed

/-- The number that starts with the digits read so far, after them. -/
def afterDigits (negative : Bool) (ds : Digits) (s : List Char) :
    Except Fault (Number × List Char) :=
  match s with
  | 'e' :: s => exponentPart negative ds s
  | 'E' :: s => exponentPart negative ds s
  | s =>
    match scaledFloat? ds.value ds.exponent with
    | some x => .ok (signed negative x, s)
    | none => .error .malformed

/-- A number after its sign. -/
def unsignedNumber (negative : Bool) (s : List Char) : Except Fault (Number × List Char) :=
  match s with
  | [] => .error .truncated
  | c :: rest =>
    if ¬c.isDigit then .error .malformed
    else if c = '0' ∧ (rest.head?.any Char.isDigit) then .error .malformed
    else
      let (digits, rest) := s.span Char.isDigit
      let ds := digits.foldl Digits.whole ⟨0, 0, false⟩
      match rest with
      | '.' :: rest =>
        let (places, rest) := rest.span Char.isDigit
        if places.isEmpty then
          if rest.isEmpty then .error .truncated else .error .malformed
        else afterDigits negative (places.foldl Digits.fraction {ds with full := false}) rest
      | 'e' :: _ => afterDigits negative ds rest
      | 'E' :: _ => afterDigits negative ds rest
      | rest =>
        if ds.full then afterDigits negative ds rest
        else if ¬negative then .ok (.integer ds.value, rest)
        else if ds.value = 0 ∨ Nat.pow 2 63 < ds.value then
          .ok (signed true ds.value.toUInt64.toFloat, rest)
        else .ok (.integer (-(ds.value : Int)), rest)

/-- A number, from its first character. -/
def number (s : List Char) : Except Fault (Number × List Char) :=
  match s with
  | '-' :: s => unsignedNumber true s
  | s => unsignedNumber false s

/-- The rest after digits that are passed over; there has to be one. -/
def skipDigits (s : List Char) : Except Fault (List Char) :=
  if s.head?.any Char.isDigit then .ok (s.dropWhile Char.isDigit) else .error .malformed

/-- The rest after the exponent of a number that is passed over. -/
def skipExponent : List Char → Except Fault (List Char)
  | '+' :: s => skipDigits s
  | '-' :: s => skipDigits s
  | s => skipDigits s

/-- The rest after the whole part of a number that is passed over. -/
def skipWhole : List Char → Except Fault (List Char)
  | [] => .error .malformed
  | '0' :: rest => if rest.head?.any Char.isDigit then .error .malformed else .ok rest
  | c :: rest => if c.isDigit then .ok (rest.dropWhile Char.isDigit) else .error .malformed

/-- The rest after the exponent of a number that is passed over, if it has one. -/
def skipScale : List Char → Except Fault (List Char)
  | 'e' :: rest => skipExponent rest
  | 'E' :: rest => skipExponent rest
  | rest => .ok rest

/-- The rest after a number that is passed over, after its sign. -/
def skipUnsigned (s : List Char) : Except Fault (List Char) := do
  let rest ← skipWhole s
  match rest with
  | '.' :: rest => skipDigits rest >>= skipScale
  | rest => skipScale rest

/-- The rest after a number that is passed over, whatever its size. -/
def skipNumber : List Char → Except Fault (List Char)
  | '-' :: s => skipUnsigned s
  | s => skipUnsigned s

/-- Whether another item of an array follows, and the text at it. -/
def nextItem (first : Bool) (s : List Char) : Except Fault (Bool × List Char) :=
  match spaces s with
  | [] => .error .truncated
  | ']' :: rest => .ok (false, ']' :: rest)
  | c :: rest =>
    if first then .ok (true, c :: rest)
    else if c ≠ ',' then .error .malformed
    else match spaces rest with
      | [] => .error .truncated
      | ']' :: _ => .error .malformed
      | rest => .ok (true, rest)

/-- A key from its quote to the colon behind it. -/
def memberKey (key : List Char → Except Fault (α × List Char)) :
    List Char → Except Fault (Option α × List Char)
  | [] => .error .truncated
  | '"' :: rest => do
    let (k, rest) ← key rest
    match spaces rest with
    | [] => .error .truncated
    | ':' :: rest => .ok (some k, rest)
    | _ => .error .malformed
  | _ => .error .malformed

/-- The key of the next member of an object, if there is one, and the text after its colon. What
stands between the quotes is read as given. -/
def nextMember (key : List Char → Except Fault (α × List Char)) (first : Bool) (s : List Char) :
    Except Fault (Option α × List Char) :=
  match spaces s with
  | [] => .error .truncated
  | '\x7d' :: rest => .ok (none, '\x7d' :: rest)
  | c :: rest =>
    if first then memberKey key (c :: rest)
    else if c ≠ ',' then .error .malformed
    else memberKey key (spaces rest)

/-- The key of the next member, as a string. -/
def nextKey : Bool → List Char → Except Fault (Option String × List Char) := nextMember stringRest

/-- The next member, its key passed over. -/
def nextSkipped : Bool → List Char → Except Fault (Option Unit × List Char) :=
  nextMember fun s => (skipString (s.length + 1) s).map ((), ·)

/-- The text after the closing bracket of an array whose items have been read. -/
def closeArray (s : List Char) : Except Fault (List Char) :=
  match spaces s with
  | [] => .error .truncated
  | ']' :: rest => .ok rest
  | _ => .error .malformed

mutual

/-- Any value. The first argument bounds the steps, the second the nesting. -/
def anyValue : Nat → Nat → List Char → Except Fault (Json × List Char)
  | 0, _, _ => .error .truncated
  | fuel + 1, depth, s =>
    match spaces s with
    | [] => .error .truncated
    | 'n' :: rest => (keyword "ull".toList rest).map (Json.null, ·)
    | 't' :: rest => (keyword "rue".toList rest).map (Json.bool true, ·)
    | 'f' :: rest => (keyword "alse".toList rest).map (Json.bool false, ·)
    | '"' :: rest => (stringRest rest).map fun (t, rest) => (Json.string t, rest)
    | '[' :: rest =>
      if depth ≤ 1 then .error .malformed
      else do
        let (items, rest) ← anyItems fuel (depth - 1) true rest
        .ok (Json.array items, rest)
    | '\x7b' :: rest =>
      if depth ≤ 1 then .error .malformed
      else do
        let (members, rest) ← anyMembers fuel (depth - 1) true rest
        .ok (mkObject members, rest)
    | c :: rest =>
      if c = '-' ∨ c.isDigit then (number (c :: rest)).map fun (n, rest) => (Json.number n, rest)
      else .error .malformed

/-- The items of an array up to and with its bracket. -/
def anyItems : Nat → Nat → Bool → List Char → Except Fault (List Json × List Char)
  | 0, _, _, _ => .error .truncated
  | fuel + 1, depth, first, s => do
    let (more, rest) ← nextItem first s
    if more then
      let (v, rest) ← anyValue fuel depth rest
      let (vs, rest) ← anyItems fuel depth false rest
      .ok (v :: vs, rest)
    else .ok ([], rest.drop 1)

/-- The members of an object up to and with its brace. -/
def anyMembers : Nat → Nat → Bool → List Char → Except Fault (List (String × Json) × List Char)
  | 0, _, _, _ => .error .truncated
  | fuel + 1, depth, first, s => do
    let (key, rest) ← nextKey first s
    match key with
    | none => .ok ([], rest.drop 1)
    | some k =>
      let (v, rest) ← anyValue fuel depth rest
      let (vs, rest) ← anyMembers fuel depth false rest
      .ok ((k, v) :: vs, rest)

end

/-- A reader of any value. -/
def any : Reader Json := fun depth s => anyValue (s.length + 1) depth s

mutual

/-- What follows a value that is passed over. -/
def skipValue : Nat → List Char → Except Fault (List Char)
  | 0, _ => .error .truncated
  | fuel + 1, s =>
    match spaces s with
    | [] => .error .truncated
    | 'n' :: rest => keyword "ull".toList rest
    | 't' :: rest => keyword "rue".toList rest
    | 'f' :: rest => keyword "alse".toList rest
    | '"' :: rest => skipString (rest.length + 1) rest
    | '[' :: rest => skipItems fuel true rest
    | '\x7b' :: rest => skipMembers fuel true rest
    | c :: rest => if c = '-' ∨ c.isDigit then skipNumber (c :: rest) else .error .malformed

/-- What follows the items of an array and its bracket. -/
def skipItems : Nat → Bool → List Char → Except Fault (List Char)
  | 0, _, _ => .error .truncated
  | fuel + 1, first, s => do
    let (more, rest) ← nextItem first s
    if more then
      let rest ← skipValue fuel rest
      skipItems fuel false rest
    else .ok (rest.drop 1)

/-- What follows the members of an object and its brace. -/
def skipMembers : Nat → Bool → List Char → Except Fault (List Char)
  | 0, _, _ => .error .truncated
  | fuel + 1, first, s => do
    let (key, rest) ← nextSkipped first s
    match key with
    | none => .ok (rest.drop 1)
    | some () =>
      let rest ← skipValue fuel rest
      skipMembers fuel false rest

end

/-- A reader that passes over a value. -/
def skip : Reader Unit := fun _ s => (skipValue (s.length + 1) s).map ((), ·)

/-- The fault of a value of another kind than asked for: it is misshapen, unless its own text
is already at fault. -/
def unexpected (s : List Char) : Fault :=
  let fault {α : Type} (r : Except Fault α) : Fault := match r with
    | .ok _ => .misshapen
    | .error e => e
  match s with
  | [] => .truncated
  | 'n' :: rest => fault (keyword "ull".toList rest)
  | 't' :: rest => fault (keyword "rue".toList rest)
  | 'f' :: rest => fault (keyword "alse".toList rest)
  | '"' :: rest => fault (stringRest rest)
  | '[' :: _ => .misshapen
  | '\x7b' :: _ => .misshapen
  | c :: rest => if c = '-' ∨ c.isDigit then fault (number (c :: rest)) else .malformed

/-- A string. -/
def string : Reader String := fun _ s =>
  match spaces s with
  | '"' :: rest => stringRest rest
  | s => .error (unexpected s)

/-- A truth value. -/
def bool : Reader Bool := fun _ s =>
  match spaces s with
  | 't' :: rest => (keyword "rue".toList rest).map (true, ·)
  | 'f' :: rest => (keyword "alse".toList rest).map (false, ·)
  | s => .error (unexpected s)

/-- A value or `null`. -/
def optional (item : Reader α) : Reader (Option α) := fun depth s =>
  match spaces s with
  | 'n' :: rest => (keyword "ull".toList rest).map (none, ·)
  | s => (item depth s).map fun (a, rest) => (some a, rest)

/-- The items of a list up to and with its bracket. -/
def listItems (item : Reader α) (depth : Nat) :
    Nat → Bool → List Char → Except Fault (List α × List Char)
  | 0, _, _ => .error .truncated
  | fuel + 1, first, s => do
    let (more, rest) ← nextItem first s
    if more then
      let (a, rest) ← item depth rest
      let (as, rest) ← listItems item depth fuel false rest
      .ok (a :: as, rest)
    else .ok ([], rest.drop 1)

/-- A list. -/
def list (item : Reader α) : Reader (List α) := fun depth s =>
  match spaces s with
  | '[' :: rest =>
    if depth ≤ 1 then .error .malformed
    else listItems item (depth - 1) (rest.length + 1) true rest
  | s => .error (unexpected s)

/-- The members of a map up to and with its brace. -/
def mapMembers (item : Reader α) (depth : Nat) :
    Nat → Bool → List Char → Except Fault (List (String × α) × List Char)
  | 0, _, _ => .error .truncated
  | fuel + 1, first, s => do
    let (key, rest) ← nextKey first s
    match key with
    | none => .ok ([], rest.drop 1)
    | some k =>
      let (a, rest) ← item depth rest
      let (as, rest) ← mapMembers item depth fuel false rest
      .ok ((k, a) :: as, rest)

/-- A map from strings, its members in the order of the text. -/
def map (item : Reader α) : Reader (List (String × α)) := fun depth s =>
  match spaces s with
  | '\x7b' :: rest =>
    if depth ≤ 1 then .error .malformed
    else mapMembers item (depth - 1) (rest.length + 1) true rest
  | s => .error (unexpected s)

/-- One field of a record: its name, how its value is taken into the record, and whether an
array that ends before it will do. -/
structure Field (σ : Type) where
  name : String
  defaulted : Bool
  read : σ → Reader σ

/-- The members of an object as fields: unknown ones are passed over, repeated ones refused. -/
def recordMembers (fields : List (Field σ)) (depth : Nat) :
    Nat → List String → σ → Bool → List Char → Except Fault (σ × List Char)
  | 0, _, _, _, _ => .error .truncated
  | fuel + 1, seen, state, first, s => do
    let (key, rest) ← nextKey first s
    match key with
    | none => .ok (state, rest.drop 1)
    | some k =>
      match fields.find? (·.name == k) with
      | none =>
        let (_, rest) ← skip depth rest
        recordMembers fields depth fuel seen state false rest
      | some field =>
        if k ∈ seen then .error .misshapen
        else
          let (state, rest) ← field.read state depth rest
          recordMembers fields depth fuel (k :: seen) state false rest

/-- The items of an array as fields in order. -/
def recordItems (depth : Nat) :
    List (Field σ) → σ → Bool → List Char → Except Fault (σ × List Char)
  | [], state, _, s => (closeArray s).map (state, ·)
  | field :: fields, state, first, s => do
    let (more, rest) ← nextItem first s
    if more then
      let (state, rest) ← field.read state depth rest
      recordItems depth fields state false rest
    else if (field :: fields).all (·.defaulted) then .ok (state, rest.drop 1)
    else .error .misshapen

/-- A record from an object or an array. -/
def record (fields : List (Field σ)) (start : σ) : Reader σ := fun depth s =>
  match spaces s with
  | '[' :: rest =>
    if depth ≤ 1 then .error .malformed else recordItems (depth - 1) fields start true rest
  | '\x7b' :: rest =>
    if depth ≤ 1 then .error .malformed
    else recordMembers fields (depth - 1) (rest.length + 1) [] start true rest
  | s => .error (unexpected s)

/-- A reader whose value must pass a test for it to have the right shape. -/
def demand (r : Reader α) (f : α → Option β) : Reader β := fun depth s =>
  match r depth s with
  | .error e => .error e
  | .ok (a, rest) => match f a with
    | some b => .ok (b, rest)
    | none => .error .misshapen

/-- A whole text read by a reader: only blanks may follow. -/
def run (r : Reader α) (text : String) : Except Fault α :=
  match r maxDepth text.toList with
  | .error e => .error e
  | .ok (a, rest) => if (spaces rest).isEmpty then .ok a else .error .malformed

end Reader

/-- The value of a JSON text. -/
def parse (text : String) : Except Fault Json := Reader.any.run text

end SiteAssist.Json
