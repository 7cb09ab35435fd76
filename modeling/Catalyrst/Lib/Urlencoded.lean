import Catalyrst.Lib.Instances

/-!
# Percent coding

A text is written byte by byte of its UTF-8: letters, digits and four signs as they are, every
other byte as `%` and two hexadecimal digits. Reading is lenient: what is no code stands for
itself, a code that the end of the text cuts off is filled with zeros, and `+` is a blank. The
bytes that are read need not be UTF-8; what text they give is left to the reader.
-/

namespace Catalyrst.Lib.Urlencoded

abbrev Bytes := List UInt8

def utf8 (s : List Char) : Bytes := s.flatMap String.utf8EncodeChar

def isUnreserved (c : Char) : Bool := c.isAlphanum || c = '-' || c = '_' || c = '.' || c = '~'

def hexDigit (n : ℕ) : Char := Char.ofNat (if n < 10 then 48 + n else 55 + n)

def encodeByte (b : UInt8) : List Char :=
  if isUnreserved (Char.ofNat b.toNat) then [Char.ofNat b.toNat]
  else ['%', hexDigit (b.toNat / 16), hexDigit (b.toNat % 16)]

def encode (s : List Char) : List Char := (utf8 s).flatMap encodeByte

def hexValue (c : Char) : Option ℕ :=
  if '0' ≤ c ∧ c ≤ '9' then some (c.toNat - 48)
  else if 'A' ≤ c ∧ c ≤ 'F' then some (c.toNat - 55)
  else if 'a' ≤ c ∧ c ≤ 'f' then some (c.toNat - 87)
  else none

/-- Two digits, or one behind a plus sign. -/
def hexByte (hi lo : Char) : Option ℕ :=
  if hi = '+' then hexValue lo
  else (hexValue hi).bind fun h => (hexValue lo).map fun l => 16 * h + l

def percentByte (hi lo : Char) : Bytes :=
  match hexByte hi lo with
  | some n => [UInt8.ofNat n]
  | none => utf8 ['%', hi, lo]

def decodeBytes : List Char → Bytes
  | [] => []
  | c :: s =>
    if c = '%' then
      match s with
      | [] => percentByte '0' '0'
      | [hi] => percentByte hi '0'
      | hi :: lo :: rest => percentByte hi lo ++ decodeBytes rest
    else if c = '+' then utf8 [' '] ++ decodeBytes s
    else utf8 [c] ++ decodeBytes s

variable {c : Char} {s t : List Char}

end Catalyrst.Lib.Urlencoded
