namespace DlogProof

/-- A source of random bytes with states `σ`. It grants a request with exactly
as many bytes as were asked for, or refuses it with a reason. -/
class EntropySource (σ : Type) where
  request : Nat → σ → Except String (List UInt8) × σ
  length_of_granted : ∀ {n s bytes s'}, request n s = (.ok bytes, s') → bytes.length = n

end DlogProof
