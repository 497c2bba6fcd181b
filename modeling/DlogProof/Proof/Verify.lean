import DlogProof.Modular.OddModulus
import DlogProof.Proof.Challenge

namespace DlogProof.Proof

variable {limbs : Nat}

/-- Whether the base, the power and every commitment are nonzero residues. -/
def inRange (proof : Proof limbs) (s : Statement limbs) (n : OddModulus limbs) : Bool :=
  n.isNonzeroResidue s.base && n.isNonzeroResidue s.power &&
    proof.commitments.all n.isNonzeroResidue

/-- Whether a proof gets as far as having its challenge derived. -/
def isChallenged (proof : Proof limbs) (s : Statement limbs) : Bool :=
  match OddModulus.ofUint? s.modulus with
  | none => false
  | some n => proof.inRange s n

/-- Whether every response matches its commitment under the challenge. -/
def answers (proof : Proof limbs) (s : Statement limbs) (n : OddModulus limbs)
    (challenge : List Bool) : Bool :=
  let table := n.powerTable s.base (Uint.bitWidth limbs)
  ((challenge.zip proof.commitments).zip proof.responses).all fun ((c, a), t) =>
    decide (n.raise table t = if c then n.mul a s.power else a)

/-- Whether the maker of the proof knew the discrete logarithm of the statement. -/
def verify (digest : Xof) (proof : Proof limbs) (s : Statement limbs) : Bool :=
  match OddModulus.ofUint? s.modulus with
  | none => false
  | some n =>
    proof.inRange s n && proof.answers s n (s.challenge digest proof.commitments)

end DlogProof.Proof
