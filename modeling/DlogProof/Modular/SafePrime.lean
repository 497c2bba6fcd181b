import DlogProof.Entropy.Draw
import DlogProof.Modular.Primality
import DlogProof.Uint.Basic

-- A power of naturals is the core library's one, also where a monoid's is in scope.
attribute [local instance (2000)] instPowNat

namespace DlogProof

/-- Whether neither `n` nor its half has a small prime factor other than itself. -/
def hasNoSmallFactor (n : Nat) : Bool :=
  smallPrimes.all fun r => (n % r != 0 || n == r) && (n / 2 % r != 0 || n / 2 == r)

/-- Whether an odd number and its half, rounded down, are both taken for primes. -/
def isSafePrime (n : Nat) : Bool :=
  hasNoSmallFactor n && isProbablePrime n && isProbablePrime (n / 2)

/-- The first safe prime among `n`, `n + 4`, `n + 8` and so on, `count` numbers in all. -/
def findSafePrime : Nat → Nat → Option Nat
  | 0, _ => none
  | count + 1, n => if isSafePrime n then some n else findSafePrime count (n + 4)

/-- The smallest safe prime of `bits` bits that is not below `n`, which is 3 modulo 4. -/
def nextSafePrime? (bits n : Nat) : Option Nat := findSafePrime ((2 ^ bits - n + 3) / 4) n

/-- Draws 64-bit words, least significant first, and joins them. -/
def drawWords {σ : Type} [EntropySource σ] : Nat → Draw σ String Nat
  | 0 => pure 0
  | n + 1 => do
    let word ← Draw.bytes id 8
    let rest ← drawWords n
    pure (beValue word + 2 ^ 64 * rest)

/-- A number of exactly `bits` bits that is 3 modulo 4. -/
def safePrimeStart (bits v : Nat) : Nat := v % 2 ^ bits ||| 2 ^ (bits - 1) ||| 3

/-- Draws one starting point, and looks for the next safe prime of `bits` bits. A refusal of the
source is not expected here. -/
def attemptSafePrime {σ ε : Type} [EntropySource σ] (bits : Nat) : Draw σ ε (Option Nat) := do
  let v ← (drawWords ((bits + 63) / 64)).orAbort
  pure (nextSafePrime? bits (safePrimeStart bits v))

/-- Draws a safe prime of `bits` bits. -/
def drawSafePrime {σ ε : Type} [EntropySource σ] (limbs bits fuel : Nat) :
    Draw σ ε (Uint limbs) := do
  let r ← (attemptSafePrime bits).untilSome fuel
  .ofOption (Uint.ofNat? r)

end DlogProof
