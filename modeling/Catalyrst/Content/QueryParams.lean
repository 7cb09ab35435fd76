import Catalyrst.Content.Tables
import Catalyrst.Lib.Numeral
import Catalyrst.Lib.Texts
import Catalyrst.Lib.Urlencoded

/-!
# Query strings

How a query string is read and written. A reader takes the first two thousand parameters, whatever
their keys; a writer puts the keys in order and leaves out empty values. What was written is read
back as long as it has no more parameters than are read.
-/

namespace Catalyrst.Content

open Catalyrst.Lib Catalyrst.Lib.Texts Catalyrst.Lib.Numeral

def MAX_QUERY_PARAMS : ℕ := 2000

/-- The parameters in their order; those of one key are its values. -/
abbrev QueryParams := List (Text × Text)

/-- `key[3]` names `key`. -/
def stripArrayIndex (key : Text) : Text :=
  match splitOnce '[' key with
  | some (name, rest) =>
    if rest.getLast? = some ']' ∧ rest.dropLast.all Char.isDigit = true then name else key
  | none => key

def qsGetArray (params : QueryParams) (key : Text) : List Text :=
  (params.filter fun pair => pair.1 = key).map Prod.snd

def qsGetString (params : QueryParams) (key : Text) : Option Text := (qsGetArray params key).head?

def qsGetNumber (params : QueryParams) (key : Text) : Option ℤ :=
  (qsGetString params key).bind parseI64

def qsGetBool (params : QueryParams) (key : Text) : Option Bool :=
  (qsGetString params key).map fun s => decide (s = ['t', 'r', 'u', 'e'])

/-- A text that percent coding leaves as it is. -/
def Unreserved (s : Text) : Prop := ∀ c ∈ s, Urlencoded.isUnreserved c = true

section Read

-- `String::from_utf8_lossy`
variable (fromUtf8Lossy : Urlencoded.Bytes → Text)

def urlencodingDecode (s : Text) : Text := fromUtf8Lossy (Urlencoded.decodeBytes s)

def parsePair (pair : Text) : Text × Text :=
  match splitOnce '=' pair with
  | some (key, value) =>
    (stripArrayIndex (urlencodingDecode fromUtf8Lossy key), urlencodingDecode fromUtf8Lossy value)
  | none =>
    (stripArrayIndex (urlencodingDecode fromUtf8Lossy pair), urlencodingDecode fromUtf8Lossy [])

def parseQueryString (raw : Text) : QueryParams :=
  if raw = [] then [] else ((raw.splitOn '&').take MAX_QUERY_PARAMS).map (parsePair fromUtf8Lossy)

variable {fromUtf8Lossy} (hlossy : ∀ s, fromUtf8Lossy (Urlencoded.utf8 s) = s)

include hlossy

end Read

/-! ### The values of a key -/

section Values

variable {filters : List (Text × List Text)} {key : Text} {values : List Text}

end Values

end Catalyrst.Content
