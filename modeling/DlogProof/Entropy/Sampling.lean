import DlogProof.Entropy.Draw
import DlogProof.Uint.Encoding

-- A power of naturals is the core library's one, also where a monoid's is in scope.
attribute [local instance (2000)] instPowNat

namespace DlogProof

/-- Why no random integer was drawn. -/
inductive SamplingError where
  | emptyRange
  | source (reason : String)
deriving DecidableEq

def SamplingError.message : SamplingError → String
  | emptyRange => "The range `[1, bound)` is empty."
  | source reason => s!"The random number generator failed: {reason}"

/-- The bits kept of the first byte of a block, so that a value of at most `bits` bits is left. -/
def highByteMask (bits : Nat) : UInt8 :=
  if bits % 8 = 0 then 0xff else UInt8.ofNat (2 ^ (bits % 8) - 1)

/-- A block with its first byte masked. -/
def maskBlock (bits : Nat) : List UInt8 → List UInt8
  | [] => []
  | b :: block => (b &&& highByteMask bits) :: block

/-- The number of random bytes that one attempt to draw `bits` bits takes. -/
def blockLength (bits : Nat) : Nat := (bits + 7) / 8

variable {limbs : Nat}

/-- What one block of random bytes gives: an integer in `[1, bound)`, or nothing. -/
def sampleOfBlock (bound : Uint limbs) (block : List UInt8) :
    Except EncodingError (Option (Uint limbs)) :=
  (Uint.ofBytes (maskBlock bound.bits block)).map fun v =>
    if 0 < v.val ∧ v.val < bound.val then some v else none

/-- One attempt to draw an integer from `[1, bound)`. -/
def attemptBelow {σ : Type} [EntropySource σ] (bound : Uint limbs) :
    Draw σ SamplingError (Option (Uint limbs)) := do
  let block ← Draw.bytes .source (blockLength bound.bits)
  match sampleOfBlock bound block with
  | .ok sample => pure sample
  | .error _ => .stop .aborted

/-- Draws an integer uniformly from `[1, bound)`. -/
def drawPositiveBelow {σ : Type} [EntropySource σ] (fuel : Nat) (bound : Uint limbs) :
    Draw σ SamplingError (Uint limbs) :=
  if bound.bits < 2 then .fail .emptyRange else (attemptBelow bound).untilSome fuel

end DlogProof
