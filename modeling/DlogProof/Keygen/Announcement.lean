import DlogProof.Keygen.Error
import DlogProof.Keygen.LocalParams
import DlogProof.Proof.Parts
import DlogProof.Proof.Verify

namespace DlogProof

/-- Which of the two proofs of an announcement. -/
inductive Slot where
  /-- The proof that `h2` is a power of `h1`. -/
  | first
  /-- The proof that `h1` is a power of `h2`. -/
  | second
deriving DecidableEq

/-- What a party broadcasts in the first round. -/
structure Announcement (P : Params) where
  paillierModulus : P.Integer
  modulus : P.Integer
  h1 : P.Integer
  h2 : P.Integer
  firstProof : WireProof
  secondProof : WireProof
deriving DecidableEq

namespace Announcement

variable {P : Params}

/-- The statement that the proof in a slot is about. -/
def statement (a : Announcement P) : Slot → Statement P.limbs
  | .first => ⟨a.h1, a.h2, a.modulus⟩
  | .second => ⟨a.h2, a.h1, a.modulus⟩

def wire (a : Announcement P) : Slot → WireProof
  | .first => a.firstProof
  | .second => a.secondProof

/-- Whether the proof in a slot decodes and verifies. -/
def verifySlot (a : Announcement P) (slot : Slot) : Bool :=
  match (Proof.ofWire (a.wire slot) : Except DecodingError (Proof P.limbs)) with
  | .ok proof => proof.verify P.digest (a.statement slot)
  | .error _ => false

end Announcement

end DlogProof
