import DlogProof.Shake.Sponge

namespace DlogProof

/-- An extendable output function: `output message n` is the first `n` bytes that follow from
`message`. -/
structure Xof where
  output : List UInt8 → Nat → List UInt8
  output_length : ∀ message n, (output message n).length = n

def Xof.shake256 : Xof := ⟨Shake.output, Shake.output_length⟩

end DlogProof
