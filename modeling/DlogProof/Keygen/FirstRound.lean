import DlogProof.Keygen.Announcement

namespace DlogProof

/-- The state of a party after its first round broadcast. -/
structure FirstRound (P : Params) where
  ownIdx : PartyIdx
  params : LocalParams P
  announcement : Announcement P
deriving DecidableEq

namespace FirstRound

variable {P : Params}

/-- Proves the relations between the two generators in both directions, and prepares the
broadcast. -/
def start {σ : Type} [EntropySource σ] (fuel : Nat) (ownIdx : PartyIdx) (params : LocalParams P)
    (paillierModulus : P.Integer) : Draw σ KeygenError (FirstRound P) := do
  let reword := fun e => KeygenError.ownSide (.generation e)
  let first ← (prove P.digest fuel params.statement params.witness).mapError reword
  let second ← (prove P.digest fuel params.inverseStatement params.inverseWitness).mapError reword
  pure {
    ownIdx, params
    announcement := {
      paillierModulus
      modulus := params.modulus
      h1 := params.h1
      h2 := params.h2
      firstProof := first.toWire
      secondProof := second.toWire } }

end FirstRound

end DlogProof
