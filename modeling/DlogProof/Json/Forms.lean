import DlogProof.FormError
import DlogProof.Json.Value
import DlogProof.Keygen.Announcement
import DlogProof.Keygen.Settings

namespace DlogProof.Json

variable {P : Params}

/-- An integer in a range. -/
def integerBelow (bound : Nat) (expected : String) : Value → Except FormError Nat
  | .integer i =>
    if 0 ≤ i ∧ i < bound then .ok i.toNat
    else .error (.invalidValue (Value.integer i).describe expected)
  | v => .error (.invalidType v.describe expected)

def readParty (v : Value) : Except FormError PartyIdx :=
  (integerBelow UInt32.size "u32" v).map fun n => ⟨UInt32.ofNat n⟩

def writeParty (i : PartyIdx) : Value := .integer i.val.toNat

/-- A positive number of workers. -/
def readConcurrency (v : Value) : Except FormError Settings :=
  match integerBelow UInt64.size "a nonzero usize" v with
  | .error e => .error e
  | .ok n =>
    if h : UInt64.ofNat n ≠ 0 then .ok ⟨UInt64.ofNat n, h⟩
    else .error (.invalidValue v.describe "a nonzero usize")

/-- What is wrong with elements after the last expected one. -/
def surplus (length : Nat) : FormError := .invalidLength length "fewer elements in array"

/-- Reads settings, where `default` stands in for what is missing. -/
def readSettings (default : Settings) : Value → Except FormError Settings
  | .array [] => .ok default
  | .array (v :: rest) => do
    let settings ← readConcurrency v
    if rest.isEmpty then pure settings else .error (surplus (rest.length + 1))
  | .object fields =>
    match fields.lookup "concurrency" with
    | some v => readConcurrency v
    | none => .ok default
  | v => .error (.invalidType v.describe "struct KeygenConfig")

def writeSettings (s : Settings) : Value := .object [("concurrency", .integer s.concurrency.toNat)]

/-- Reads a byte string, written as hexadecimal digits after `0x`. -/
def readBytes : Value → Except FormError (List UInt8)
  | .string s =>
    match s.toList with
    | '0' :: 'x' :: digits => (Text.bytesOfHex (Text.utf8Bytes digits)).mapError .hex
    | _ => .error (.invalidValue (Value.string s).describe "0x-prefixed hex-encoded bytes")
  | v => .error (.invalidType v.describe "a bytestring")

def writeBytes (bytes : List UInt8) : Value :=
  .string (String.ofList ('0' :: 'x' :: Text.hexDigits bytes))

/-- Reads an integer from its full-width encoding. -/
def readUint {limbs : Nat} (v : Value) : Except FormError (Uint limbs) := do
  let bytes ← readBytes v
  (Uint.ofFullBytes bytes).mapError .encoding

def writeUint {limbs : Nat} (a : Uint limbs) : Value := writeBytes a.toBytes

/-- Reads the elements in order, up to the first bad one. -/
def readAll {α : Type} (read : Value → Except FormError α) : List Value → Except FormError (List α)
  | [] => .ok []
  | v :: vs => do
    let a ← read v
    let as ← readAll read vs
    pure (a :: as)

def readWire : Value → Except FormError WireProof
  | .array items => (readAll readBytes items).map WireProof.mk
  | v => .error (.invalidType v.describe "a sequence")

def writeWire (w : WireProof) : Value := .array (w.parts.map writeBytes)

/-- The fault of one field of an announcement. Unknown fields have none. -/
def fieldFault? (P : Params) (name : String) (v : Value) : Option FormError :=
  if name = "paillier_modulus" ∨ name = "ntilde" ∨ name = "h1" ∨ name = "h2" then
    match (readUint v : Except FormError P.Integer) with
    | .error e => some e
    | .ok _ => none
  else if name = "dln_proof_1" ∨ name = "dln_proof_2" then
    match readWire v with
    | .error e => some e
    | .ok _ => none
  else none

/-- Reads the field of a name. -/
def readField {α : Type} (read : Value → Except FormError α) (fields : List (String × Value))
    (name : String) : Except FormError α :=
  match fields.lookup name with
  | some v => read v
  | none => .error (.missingField name)

/-- Reads the element at a position of an announcement written as an array. -/
def readElement {α : Type} (read : Value → Except FormError α) (items : List Value) (i : Nat) :
    Except FormError α :=
  match items[i]? with
  | some v => read v
  | none => .error (.invalidLength i "struct Round1Announcement with 6 elements")

/-- Reads an announcement from an object, whose faults are found in the order of its fields and
before missing ones, or from an array of its six fields. -/
def readAnnouncement : Value → Except FormError (Announcement P)
  | .object fields =>
    match fields.findSome? fun f => fieldFault? P f.1 f.2 with
    | some e => .error e
    | none => do
      let paillierModulus ← readField readUint fields "paillier_modulus"
      let modulus ← readField readUint fields "ntilde"
      let h1 ← readField readUint fields "h1"
      let h2 ← readField readUint fields "h2"
      let firstProof ← readField readWire fields "dln_proof_1"
      let secondProof ← readField readWire fields "dln_proof_2"
      pure { paillierModulus, modulus, h1, h2, firstProof, secondProof }
  | .array items => do
    let paillierModulus ← readElement readUint items 0
    let modulus ← readElement readUint items 1
    let h1 ← readElement readUint items 2
    let h2 ← readElement readUint items 3
    let firstProof ← readElement readWire items 4
    let secondProof ← readElement readWire items 5
    if items.length ≤ 6 then pure { paillierModulus, modulus, h1, h2, firstProof, secondProof }
    else .error (surplus items.length)
  | v => .error (.invalidType v.describe "struct Round1Announcement")

/-- Writes an announcement with its fields in alphabetical order. -/
def writeAnnouncement (a : Announcement P) : Value :=
  .object [
    ("dln_proof_1", writeWire a.firstProof),
    ("dln_proof_2", writeWire a.secondProof),
    ("h1", writeUint a.h1),
    ("h2", writeUint a.h2),
    ("ntilde", writeUint a.modulus),
    ("paillier_modulus", writeUint a.paillierModulus)]

end DlogProof.Json
