/-
# `Libjapi.JsonText` — the text of a tree

What `json_object_to_json_string` writes: blanks between the members and the
elements, a backslash in front of quotes, backslashes and slashes, and escapes
for control characters, the newline among them.  The theorems take the tokener
and the serialiser as parameters; `JsonC.table` is one to run the code with, which
writes as json-c does and knows what the texts of a table parse to.
-/
import Libjapi.JsonC

namespace Libjapi

def quote : Byte := 34

def backslash : Byte := 92

/-- A hexadecimal digit. -/
def hexDigit (n : Nat) : Byte := UInt8.ofNat (if n < 10 then 48 + n else 87 + n)

/-- `json_escape_str`, byte by byte. -/
def escapeByte (b : Byte) : List Byte :=
  if b = quote ∨ b = backslash then [backslash, b]
  else if b = 47 then (CStr.lit "\\/").bytes
  else if b = 8 then (CStr.lit "\\b").bytes
  else if b = 9 then (CStr.lit "\\t").bytes
  else if b = 10 then (CStr.lit "\\n").bytes
  else if b = 12 then (CStr.lit "\\f").bytes
  else if b = 13 then (CStr.lit "\\r").bytes
  else if b < 32 then
    (CStr.lit "\\u00").bytes ++ [hexDigit (b.toNat / 16), hexDigit (b.toNat % 16)]
  else [b]

def quoted (s : List Byte) : List Byte := quote :: s.flatMap escapeByte ++ [quote]

def decimal (i : Int) : List Byte :=
  (if i < 0 then [45] else []) ++ (Nat.toDigits 10 i.natAbs).map fun c => UInt8.ofNat c.toNat

/-- The comma in front of every member and element but the first. -/
def comma (children : Bool) : List Byte := if children then [44] else []

mutual
def Json.text : Json → List Byte
  | .null => (CStr.lit "null").bytes
  | .boolean b => (CStr.lit (if b then "true" else "false")).bytes
  | .double t => t
  | .int i => decimal i
  | .string s => quoted s
  | .array es => (CStr.lit "[").bytes ++ Json.elementsText false es ++ (CStr.lit " ]").bytes
  | .object ms =>
      (CStr.lit "\x7b").bytes ++ Json.membersText false ms ++ (CStr.lit " \x7d").bytes

def Json.elementsText (children : Bool) : List Json → List Byte
  | [] => []
  | j :: js => comma children ++ 32 :: Json.text j ++ Json.elementsText true js

def Json.membersText (children : Bool) : List (CStr × Json) → List Byte
  | [] => []
  | (k, j) :: ms => comma children ++ 32 :: quoted k.bytes ++ (CStr.lit ": ").bytes ++
      Json.text j ++ Json.membersText true ms
end

/-- json-c on the texts of a table, and on any tree. -/
def JsonC.table (texts : List (CStr × Json)) : JsonC where
  parse text := texts.lookup text
  toJsonString tree := CStr.ofBytes tree.text
  intOfString _ := 0
  intOfDouble _ := 0

example : CStr.ofBytes (Json.text (.object [(CStr.lit "a/b", .array [.int (-12), .null]),
      (CStr.lit "c", .object []), (CStr.lit "d", .string [10, 65])])) =
    CStr.lit "\x7b \"a\\/b\": [ -12, null ], \"c\": \x7b \x7d, \"d\": \"\\nA\" \x7d" := by
  decide +kernel

end Libjapi
