import DlogProof.FormError
import DlogProof.Keygen.Announcement
import DlogProof.Keygen.Settings

namespace DlogProof.Binary

/-- Why bytes are not the form of what was expected. -/
inductive Error where
  /-- The bytes end too early, or an integer is too wide for its type. -/
  | malformed
  | form (error : FormError)
deriving DecidableEq

/-- Reads a value from the front of a byte string, and gives the bytes after it. -/
abbrev Reader (α : Type) : Type := List UInt8 → Except Error (α × List UInt8)

variable {P : Params}

/-- An integer below `2 ^ 64`: one byte if it is below 251, else a marker and 2, 4 or 8 bytes. -/
def writeVarint (n : Nat) : List UInt8 :=
  if n < 251 then [UInt8.ofNat n]
  else if n < UInt16.size then 0xfb :: leBytes 2 n
  else if n < UInt32.size then 0xfc :: leBytes 4 n
  else 0xfd :: leBytes 8 n

/-- Takes the next `n` bytes. -/
def take (n : Nat) : Reader (List UInt8) := fun bytes =>
  let front := bytes.take n
  if front.length = n then .ok (front, bytes.drop n) else .error .malformed

/-- Reads an integer of `n` bytes, least significant byte first. -/
def readFixed (n : Nat) : Reader Nat := fun bytes =>
  (take n bytes).map fun (digits, rest) => (leValue digits, rest)

/-- Reads an integer of a type of `width` bytes. It need not be in its shortest form. -/
def readVarint (width : Nat) : Reader Nat
  | [] => .error .malformed
  | b :: rest =>
    if b < 251 then .ok (b.toNat, rest)
    else if b = 0xfb ∧ 2 ≤ width then readFixed 2 rest
    else if b = 0xfc ∧ 4 ≤ width then readFixed 4 rest
    else if b = 0xfd ∧ 8 ≤ width then readFixed 8 rest
    else .error .malformed

def writeParty (i : PartyIdx) : List UInt8 := writeVarint i.val.toNat

def readParty : Reader PartyIdx := fun bytes =>
  (readVarint 4 bytes).map fun (n, rest) => (⟨UInt32.ofNat n⟩, rest)

def writeSettings (s : Settings) : List UInt8 := writeVarint s.concurrency.toNat

def readSettings : Reader Settings := fun bytes =>
  match readVarint 8 bytes with
  | .error e => .error e
  | .ok (n, rest) =>
    if h : UInt64.ofNat n ≠ 0 then .ok (⟨UInt64.ofNat n, h⟩, rest)
    else .error (.form (.invalidValue "integer `0`" "a nonzero usize"))

/-- A byte string behind its length. -/
def writeBytes (bytes : List UInt8) : List UInt8 := writeVarint bytes.length ++ bytes

def readBytes : Reader (List UInt8) := fun bytes => do
  let (n, rest) ← readVarint 8 bytes
  take n rest

def writeUint {limbs : Nat} (a : Uint limbs) : List UInt8 := writeBytes a.toBytes

/-- Reads an integer from its full-width encoding. -/
def readUint {limbs : Nat} : Reader (Uint limbs) := fun bytes => do
  let (digits, rest) ← readBytes bytes
  let a ← (Uint.ofFullBytes digits).mapError fun e => .form (.encoding e)
  pure (a, rest)

/-- Reads `n` byte strings. -/
def readMany : Nat → Reader (List (List UInt8))
  | 0, bytes => .ok ([], bytes)
  | n + 1, bytes => do
    let (part, rest) ← readBytes bytes
    let (parts, rest) ← readMany n rest
    pure (part :: parts, rest)

/-- Byte strings behind their number. -/
def writeWire (w : WireProof) : List UInt8 :=
  writeVarint w.parts.length ++ w.parts.flatMap writeBytes

def readWire : Reader WireProof := fun bytes => do
  let (n, rest) ← readVarint 8 bytes
  let (parts, rest) ← readMany n rest
  pure (⟨parts⟩, rest)

/-- The fields of an announcement, one after another. -/
def writeAnnouncement (a : Announcement P) : List UInt8 :=
  writeUint a.paillierModulus ++ writeUint a.modulus ++ writeUint a.h1 ++ writeUint a.h2 ++
    writeWire a.firstProof ++ writeWire a.secondProof

def readAnnouncement : Reader (Announcement P) := fun bytes => do
  let (paillierModulus, rest) ← readUint bytes
  let (modulus, rest) ← readUint rest
  let (h1, rest) ← readUint rest
  let (h2, rest) ← readUint rest
  let (firstProof, rest) ← readWire rest
  let (secondProof, rest) ← readWire rest
  pure ({ paillierModulus, modulus, h1, h2, firstProof, secondProof }, rest)

end DlogProof.Binary
