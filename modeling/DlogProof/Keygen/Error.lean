import DlogProof.Keygen.Party
import DlogProof.Proof.Prove

namespace DlogProof

/-- A fault in the announcement of a party. -/
inductive Fault where
  | paillierModulusSize (expected actual : Nat)
  | h1EqualsH2
  | modulusSize (expected actual : Nat)
  | h1Reused
  | h2Reused
  | firstProofFailed
  | secondProofFailed
deriving DecidableEq

def Fault.message : Fault → String
  | paillierModulusSize expected actual =>
    s!"The Paillier modulus has {actual} bits, expected {expected}"
  | h1EqualsH2 => "`h1` and `h2` are equal"
  | modulusSize expected actual => s!"The DLN modulus has {actual} bits, expected {expected}"
  | h1Reused => "`h1` was already announced by another party"
  | h2Reused => "`h2` was already announced by another party"
  | firstProofFailed => "The proof of `h2 = h1^alpha` failed verification"
  | secondProofFailed => "The proof of `h1 = h2^beta` failed verification"

/-- A failure on the side of the party itself. -/
inductive LocalError where
  | threadPool (reason : String)
  | generation (error : GenerationError)
  | missingVerdicts (expected received : Nat)
deriving DecidableEq

namespace LocalError

def message : LocalError → String
  | threadPool reason => s!"Failed to start the proof verification workers: {reason}"
  | generation error => s!"Failed to create a DLN proof: {error.message}"
  | missingVerdicts expected received =>
    s!"Expected {expected} proof verification results, got {received}"

/-- The messages of the underlying causes, nearest first. -/
def sources : LocalError → List String
  | generation error => error.message :: error.sources
  | _ => []

end LocalError

/-- Why a key generation session failed. -/
inductive KeygenError where
  | ownSide (error : LocalError)
  | misbehaved (party : PartyIdx) (fault : Fault)
deriving DecidableEq

namespace KeygenError

def message : KeygenError → String
  | ownSide error => s!"Local error: {error.message}"
  | misbehaved party fault => s!"Party {party.text} misbehaved: {fault.message}"

/-- The messages of the underlying causes, nearest first. -/
def sources : KeygenError → List String
  | ownSide error => error.message :: error.sources
  | misbehaved _ fault => [fault.message]

/-- The party blamed for the failure, if any. -/
def culprit : KeygenError → Option PartyIdx
  | ownSide _ => none
  | misbehaved party _ => some party

end KeygenError

end DlogProof
