import DlogProof.Shake.Xof
import DlogProof.Uint.Basic

namespace DlogProof

/-- The sizes of the integers in a proof system, and the hash that its challenges come from. -/
structure Params where
  /-- The size of each of the two safe primes of a modulus. -/
  primeBits : Nat
  /-- The size of a modulus. -/
  modulusBits : Nat := 2 * primeBits
  /-- The number of 64-bit limbs of an integer. -/
  limbs : Nat
  digest : Xof := Xof.shake256

namespace Params

/-- The integers of a parameter set. -/
abbrev Integer (P : Params) : Type := Uint P.limbs

/-- Whether a modulus fits into the integer type. -/
def selfConsistent (P : Params) : Bool := decide (P.modulusBits ≤ Uint.bitWidth P.limbs)

/-- Parameters for production use: 1024-bit safe primes and 2048-bit moduli. -/
def production : Params := { primeBits := 1024, limbs := 32 }

/-- Parameters for testing only, scaled down for speed. -/
def test : Params := { primeBits := 128, limbs := 4 }

end Params

end DlogProof
