namespace DlogProof

/-- Local settings of the key generation: the number of workers that verify proofs. -/
structure Settings where
  concurrency : UInt64
  positive : concurrency ≠ 0
deriving DecidableEq

end DlogProof
