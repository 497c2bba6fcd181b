import DlogProof.Proof.Basic
import DlogProof.Uint.Encoding

namespace DlogProof

/-- Why a list of byte strings is not a proof. -/
inductive DecodingError where
  | countMismatch (expected actual : Nat)
  | lengthMismatch (index expected actual : Nat)
  | parse (index : Nat) (reason : String)
  | groupSize (expected actual : Nat)
deriving DecidableEq

def DecodingError.message : DecodingError → String
  | countMismatch expected actual => s!"Expected {expected} byte strings, got {actual}"
  | lengthMismatch index expected actual =>
    s!"Byte string {index} is {actual} bytes long, while the first one is {expected} bytes long"
  | parse index reason => s!"Byte string {index} does not represent a valid integer: {reason}"
  | groupSize expected actual =>
    s!"Expected {expected} values in each half of the proof, got {actual}"

/-- Reads the byte strings from position `index` on, each of which has to be `width` bytes long. -/
def valuesOfParts {limbs : Nat} (width : Nat) :
    Nat → List (List UInt8) → Except DecodingError (List (Uint limbs))
  | _, [] => .ok []
  | index, part :: parts =>
    if part.length ≠ width then .error (.lengthMismatch index width part.length)
    else
      match Uint.ofBytes part with
      | .error e => .error (.parse index e.message)
      | .ok v => (valuesOfParts width (index + 1) parts).map (v :: ·)

/-- The length of the longest string, zero if there is none. -/
def longestLength (strings : List (List UInt8)) : Nat := (strings.map List.length).foldl max 0

namespace Proof

variable {limbs : Nat}

/-- The commitments followed by the responses, all padded to the longest minimal encoding. -/
def toParts (proof : Proof limbs) : List (List UInt8) :=
  let minimal := (proof.commitments ++ proof.responses).map Uint.toMinimalBytes
  minimal.map (padBytes (longestLength minimal))

/-- Reads the commitments and the responses from byte strings of equal length. -/
def ofParts (parts : List (List UInt8)) : Except DecodingError (Proof limbs) :=
  if parts.length ≠ 2 * iterations then .error (.countMismatch (2 * iterations) parts.length)
  else
    match valuesOfParts ((parts.head?.map List.length).getD 0) 0 parts with
    | .error e => .error e
    | .ok values =>
      match ofHalves (values.take iterations) (values.drop iterations) with
      | .error size => .error (.groupSize iterations size)
      | .ok proof => .ok proof

end Proof

/-- A proof as it travels: byte strings that need not decode to a proof. -/
structure WireProof where
  parts : List (List UInt8)
deriving DecidableEq

namespace Proof

variable {limbs : Nat}

def toWire (proof : Proof limbs) : WireProof := ⟨proof.toParts⟩

def ofWire (wire : WireProof) : Except DecodingError (Proof limbs) := ofParts wire.parts

end Proof

end DlogProof
