import DlogProof.Text.Quoted

namespace DlogProof.Text

/-- Why digits are not those of a byte string. -/
inductive HexError where
  | oddLength
  | badDigit (byte : UInt8) (position : Nat)
deriving DecidableEq

def HexError.message : HexError → String
  | oddLength => "Odd number of digits"
  | badDigit byte position =>
    s!"Invalid character {quoteChar (Char.ofNat byte.toNat)} at position {position}"

/-- The lower-case hexadecimal digit of a number below 16. -/
def hexDigit (n : Nat) : Char := Char.ofNat (if n < 10 then 48 + n else 87 + n)

/-- Two digits for every byte. -/
def hexDigits (bytes : List UInt8) : List Char :=
  bytes.flatMap fun b => [hexDigit (b.toNat / 16), hexDigit (b.toNat % 16)]

def hexOfBytes (bytes : List UInt8) : String := String.ofList (hexDigits bytes)

/-- The value of a hexadecimal digit in either case, given as an ASCII byte. -/
def hexValue? (b : UInt8) : Option Nat :=
  if 48 ≤ b ∧ b ≤ 57 then some (b.toNat - 48)
  else if 97 ≤ b ∧ b ≤ 102 then some (b.toNat - 87)
  else if 65 ≤ b ∧ b ≤ 70 then some (b.toNat - 55)
  else none

/-- Reads pairs of digits from a position on. -/
def bytesOfPairs : Nat → List UInt8 → Except HexError (List UInt8)
  | i, a :: b :: digits =>
    match hexValue? a, hexValue? b with
    | none, _ => .error (.badDigit a i)
    | some _, none => .error (.badDigit b (i + 1))
    | some x, some y => (bytesOfPairs (i + 2) digits).map (UInt8.ofNat (16 * x + y) :: ·)
  | _, _ => .ok []

/-- Reads the bytes that digits, given as ASCII bytes, stand for. -/
def bytesOfHex (digits : List UInt8) : Except HexError (List UInt8) :=
  if digits.length % 2 = 1 then .error .oddLength else bytesOfPairs 0 digits

/-- The bytes of a text in UTF-8. -/
def utf8Bytes (s : List Char) : List UInt8 := s.flatMap String.utf8EncodeChar

end DlogProof.Text
