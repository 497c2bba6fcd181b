import DlogProof.Modular.SafePrime
import DlogProof.Params
import DlogProof.Proof.Prove

-- A power of naturals is the core library's one, also where a monoid's is in scope.
attribute [local instance (2000)] instPowNat

namespace DlogProof

/-- The modulus `(2 * p + 1) * (2 * q + 1)` of a party with two generators of its quadratic
residues, `h2 = h1 ^ alpha` and `h1 = h2 ^ beta`. -/
structure LocalParams (P : Params) where
  modulus : P.Integer
  h1 : P.Integer
  h2 : P.Integer
  alpha : P.Integer
  beta : P.Integer
  p : P.Integer
  q : P.Integer
deriving DecidableEq

/-- The low limbs of a product. -/
def Uint.wrappingMul {limbs : Nat} (a b : Uint limbs) : Uint limbs :=
  ⟨a.val * b.val % 2 ^ (64 * limbs), Nat.mod_lt _ (Nat.two_pow_pos _)⟩

namespace LocalParams

variable {P : Params} {σ : Type} [EntropySource σ]

/-- The product of two different primes, if it has the size of a modulus. -/
def modulusOf? (safeP safeQ : P.Integer) : Option P.Integer :=
  if safeP = safeQ then none
  else (safeP.checkedMul safeQ).filter fun n => n.bits = P.modulusBits

/-- The square of a residue, if it is neither 0 nor 1. -/
def generatorOf? (n : OddModulus P.limbs) (r : P.Integer) : Option P.Integer :=
  let h1 := n.mul r r
  if 1 < h1.bits then some h1 else none

/-- The inverse of `alpha` modulo the order and the power `h1 ^ alpha`, if there is an inverse
and the power differs from `h1`. -/
def partnerOf? (n order : OddModulus P.limbs) (h1 alpha : P.Integer) :
    Option (P.Integer × P.Integer) :=
  match order.inverse? alpha with
  | none => none
  | some beta =>
    let h2 := n.powBounded h1 alpha P.modulusBits
    if h2 = h1 then none else some (beta, h2)

/-- Draws pairs of safe primes until their product can be a modulus. -/
def drawPrimes (fuel : Nat) (drawPrime : Draw σ GenerationError P.Integer) :
    Draw σ GenerationError (P.Integer × P.Integer) :=
  Draw.untilSome (do
    let safeP ← drawPrime
    let safeQ ← drawPrime
    pure ((modulusOf? safeP safeQ).map fun _ => (safeP, safeQ))) fuel

/-- Draws residues until the square of one can be a generator. -/
def drawGenerator (fuel : Nat) (n : OddModulus P.limbs) : Draw σ GenerationError P.Integer :=
  Draw.untilSome (do
    let r ← (drawPositiveBelow fuel n.modulus).mapError .sampling
    pure (generatorOf? n r)) fuel

/-- Draws exponents `alpha` until one has a `beta` and an `h2`. -/
def drawExponent (fuel : Nat) (n order : OddModulus P.limbs) (h1 : P.Integer) :
    Draw σ GenerationError (P.Integer × P.Integer × P.Integer) :=
  Draw.untilSome (do
    let alpha ← (drawPositiveBelow fuel order.modulus).mapError .sampling
    pure ((partnerOf? n order h1 alpha).map fun (beta, h2) => (alpha, beta, h2))) fuel

/-- Picks the generators for the product of two safe primes. -/
def ofSafePrimes (fuel : Nat) (safeP safeQ : P.Integer) : Draw σ GenerationError (LocalParams P) :=
  match safeP.checkedMul safeQ with
  | none => .fail .invalidModulus
  | some modulus =>
    let p := safeP.half
    let q := safeQ.half
    match OddModulus.ofUint? modulus with
    | none => .fail .invalidModulus
    | some n =>
      match OddModulus.ofUint? (p.wrappingMul q) with
      | none => .fail .zeroGroupOrder
      | some order => do
        let h1 ← drawGenerator fuel n
        let (alpha, beta, h2) ← drawExponent fuel n order h1
        pure { modulus, h1, h2, alpha, beta, p, q }

/-- Draws the safe primes in the given way, and picks the generators. -/
def randomWith (fuel : Nat) (drawPrime : Draw σ GenerationError P.Integer) :
    Draw σ GenerationError (LocalParams P) := do
  let (safeP, safeQ) ← drawPrimes fuel drawPrime
  ofSafePrimes fuel safeP safeQ

/-- Generates new parameters. -/
def random (fuel : Nat) : Draw σ GenerationError (LocalParams P) :=
  randomWith fuel (drawSafePrime P.limbs P.primeBits fuel)

/-- The statement that `h2` is a power of `h1`. -/
def statement (l : LocalParams P) : Statement P.limbs := ⟨l.h1, l.h2, l.modulus⟩

/-- The statement that `h1` is a power of `h2`. -/
def inverseStatement (l : LocalParams P) : Statement P.limbs := ⟨l.h2, l.h1, l.modulus⟩

def witness (l : LocalParams P) : Witness P.limbs := ⟨l.alpha, l.p, l.q⟩

def inverseWitness (l : LocalParams P) : Witness P.limbs := ⟨l.beta, l.p, l.q⟩

/-- The values that are kept from view when parameters are shown. -/
def secrets (l : LocalParams P) : List P.Integer := [l.alpha, l.beta, l.p, l.q]

end LocalParams

end DlogProof
