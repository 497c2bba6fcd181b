import DlogProof.Entropy.Sampling
import DlogProof.Modular.OddModulus
import DlogProof.Proof.Challenge

namespace DlogProof

/-- Why no proof was made. -/
inductive GenerationError where
  | invalidModulus
  | zeroGroupOrder
  | groupOrderTooLarge
  | sampling (error : SamplingError)
deriving DecidableEq

namespace GenerationError

def message : GenerationError → String
  | invalidModulus => "The modulus is zero or even."
  | zeroGroupOrder => "The group order `p * q` is zero."
  | groupOrderTooLarge =>
    "The group order `p * q` does not fit into the integer type with a bit to spare."
  | sampling error => s!"Failed to sample a random value: {error.message}"

/-- The messages of the underlying causes, nearest first. -/
def sources : GenerationError → List String
  | sampling error => [error.message]
  | _ => []

end GenerationError

variable {limbs : Nat}

/-- What the prover works with once its inputs have passed the checks:
the exponent is reduced modulo the order. -/
structure Prover (limbs : Nat) where
  modulus : OddModulus limbs
  order : Uint limbs
  exponent : Uint limbs

/-- The order `p * q`, which leaves a bit of the integer type to spare. -/
def Witness.groupOrder (w : Witness limbs) : Except GenerationError (Uint limbs) :=
  match w.p.checkedMul w.q with
  | none => .error .groupOrderTooLarge
  | some m =>
    if Uint.bitWidth limbs ≤ m.bits then .error .groupOrderTooLarge
    else if m.val = 0 then .error .zeroGroupOrder
    else .ok m

namespace Prover

/-- Checks the modulus first, then the group order. -/
def ofInputs (s : Statement limbs) (w : Witness limbs) : Except GenerationError (Prover limbs) :=
  match OddModulus.ofUint? s.modulus with
  | none => .error .invalidModulus
  | some n => w.groupOrder.map fun m => ⟨n, m, w.exponent.rem m⟩

/-- The commitment to each nonce: the base raised to it. -/
def commitments (prover : Prover limbs) (s : Statement limbs) (nonces : List (Uint limbs)) :
    List (Uint limbs) :=
  let table := prover.modulus.powerTable s.base prover.order.bits
  nonces.map (prover.modulus.raise table)

/-- The response to one challenge bit, unless the sum overflows. -/
def respond? (prover : Prover limbs) (nonce : Uint limbs) (bit : Bool) : Option (Uint limbs) :=
  if bit then (nonce.checkedAdd prover.exponent).map (Uint.rem · prover.order) else some nonce

/-- The proof that follows from the nonces. -/
def complete? (digest : Xof) (prover : Prover limbs) (s : Statement limbs)
    (nonces : List (Uint limbs)) : Option (Proof limbs) :=
  let commitments := prover.commitments s nonces
  match (nonces.zip (s.challenge digest commitments)).mapM fun (a, c) => prover.respond? a c with
  | none => none
  | some responses => (Proof.ofHalves commitments responses).toOption

end Prover

/-- Draws `count` integers from `[1, bound)`, one after another. -/
def drawNonces {σ : Type} [EntropySource σ] (fuel : Nat) (bound : Uint limbs) :
    Nat → Draw σ SamplingError (List (Uint limbs))
  | 0 => pure []
  | count + 1 => do
    let a ← drawPositiveBelow fuel bound
    let rest ← drawNonces fuel bound count
    pure (a :: rest)

/-- Makes a proof of a statement. The statement itself is not checked: a proof of a false one
is made too, but does not verify. -/
def prove {σ : Type} [EntropySource σ] (digest : Xof) (fuel : Nat) (s : Statement limbs)
    (w : Witness limbs) : Draw σ GenerationError (Proof limbs) :=
  match Prover.ofInputs s w with
  | .error e => .fail e
  | .ok prover => do
    let nonces ← (drawNonces fuel prover.order iterations).mapError .sampling
    .ofOption (prover.complete? digest s nonces)

end DlogProof
