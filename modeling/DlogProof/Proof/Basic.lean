import DlogProof.Uint.Basic

namespace DlogProof

/-- The number of repetitions in a proof, and of the bits in a challenge. -/
def iterations : Nat := 128

/-- The claim that `power` is a power of `base` modulo `modulus`. -/
structure Statement (limbs : Nat) where
  base : Uint limbs
  power : Uint limbs
  modulus : Uint limbs
deriving DecidableEq

/-- The exponent that a statement is about, and the factors `p` and `q` of the order of the base. -/
structure Witness (limbs : Nat) where
  exponent : Uint limbs
  p : Uint limbs
  q : Uint limbs
deriving DecidableEq

/-- A proof of knowledge of a discrete logarithm: a commitment and a response for each
repetition. -/
structure Proof (limbs : Nat) where
  commitments : List (Uint limbs)
  responses : List (Uint limbs)
  commitments_length : commitments.length = iterations
  responses_length : responses.length = iterations
deriving DecidableEq

/-- Joins the two halves of a proof, or gives the size of the half that is too short or too long. -/
def Proof.ofHalves {limbs : Nat} (commitments responses : List (Uint limbs)) :
    Except Nat (Proof limbs) :=
  if hc : commitments.length = iterations then
    if hr : responses.length = iterations then .ok ⟨commitments, responses, hc, hr⟩
    else .error responses.length
  else .error commitments.length

end DlogProof
