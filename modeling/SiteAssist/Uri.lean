import SiteAssist.Text.Class
import SiteAssist.Text.Basic
import SiteAssist.Path

/-!
# File URIs

A `file` URI is the scheme and a path in which bytes may be written as `%` and two hexadecimal
digits. Reading one decodes every such triple and takes a `%` that starts none as itself; the bytes
have to be UTF-8 in the end. Writing one escapes every byte that is not an unreserved character,
segment by segment.

`isWellFormed` is the outer form of URI references: only the characters that may stand in one, every
`%` starting a triple.
-/

namespace SiteAssist.Uri

/-- The two marks before the path. -/
def scheme : List Char := "file://".toList

/-- The bytes of a text with its percent triples decoded. -/
def decodeBytes : List Char → List UInt8
  | [] => []
  | '%' :: a :: b :: rest =>
    match Text.hexValue? a, Text.hexValue? b with
    | some x, some y => UInt8.ofNat (16 * x + y) :: decodeBytes rest
    | _, _ => '%'.toString.toUTF8.toList ++ decodeBytes (a :: b :: rest)
  | c :: rest => c.toString.toUTF8.toList ++ decodeBytes rest

/-- The path of a file URI, if it is one and its bytes are UTF-8. -/
def toPath? (uri : String) : Option Path :=
  (Text.stripPrefix? scheme uri.toList).bind fun path =>
    (String.fromUTF8? ⟨(decodeBytes path).toArray⟩).map Path.mk

/-- A byte that is written as itself. -/
def isUnreserved (b : UInt8) : Bool :=
  let c := Char.ofNat b.toNat
  c.isAlphanum || c == '-' || c == '_' || c == '.' || c == '~'

/-- An upper-case hexadecimal digit. -/
def upperHex (n : Nat) : Char := if n < 10 then Char.ofNat (48 + n) else Char.ofNat (55 + n)

/-- A byte as it is written. -/
def encodeByte (b : UInt8) : List Char :=
  if isUnreserved b then [Char.ofNat b.toNat]
  else ['%', upperHex (b.toNat / 16), upperHex (b.toNat % 16)]

/-- A segment with its reserved bytes escaped. -/
def encodeSegment (segment : List Char) : List Char :=
  (String.ofList segment).toUTF8.toList.flatMap encodeByte

/-- The file URI of a path. -/
def ofPath (p : Path) : String :=
  String.ofList
    (scheme ++ List.intercalate ['/'] ((p.text.toList.splitOn '/').map encodeSegment))

/-- A character that may stand in a URI as itself. -/
def isUriChar (c : Char) : Bool :=
  c.toNat < 0x80 && (c.isAlphanum || "-._~:/?#@!$&'()*+,;=".toList.contains c)

/-- Every character may stand in a URI, and every `%` starts a triple. -/
def wellFormedChars : List Char → Bool
  | [] => true
  | '%' :: a :: b :: rest =>
    (Text.hexValue? a).isSome && (Text.hexValue? b).isSome && wellFormedChars rest
  | c :: rest => isUriChar c && wellFormedChars rest

/-- The text is a URI reference with at most one fragment. -/
def isWellFormed (uri : String) : Bool :=
  wellFormedChars uri.toList && uri.toList.count '#' ≤ 1

end SiteAssist.Uri
