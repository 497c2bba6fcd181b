import DlogProof.Entropy.Source
import DlogProof.Shake.Sponge

namespace DlogProof

/-- A scripted byte stream: bytes at hand, followed either by the endless output of a sponge or by
nothing. -/
structure Script where
  pending : List UInt8
  sponge : Option Shake.Lanes
  used : Nat

namespace Script

/-- The stream of the given bytes, continued by the output that follows from a seed. -/
def ofBytes (bytes : List UInt8) (seed : Option (List UInt8)) : Script :=
  ⟨bytes, seed.map Shake.absorb, 0⟩

/-- Squeezes `n` more blocks. -/
def squeeze : Nat → List UInt8 × Shake.Lanes → List UInt8 × Shake.Lanes
  | 0, x => x
  | n + 1, (bytes, a) => squeeze n (bytes ++ Shake.blockOf a, Shake.permute a)

/-- The same stream with at least `n` bytes at hand, if it is that long. -/
def fill (s : Script) (n : Nat) : Script :=
  match s.sponge with
  | none => s
  | some a =>
    let blocks := (n - s.pending.length + Shake.rate - 1) / Shake.rate
    let (bytes, a') := squeeze blocks (s.pending, a)
    { s with pending := bytes, sponge := some a' }

/-- Takes the next `n` bytes, or nothing if fewer are left. -/
def request (n : Nat) (s : Script) : Except String (List UInt8) × Script :=
  let s' := s.fill n
  if n ≤ s'.pending.length then
    (.ok (s'.pending.take n),
      { s' with pending := s'.pending.drop n, used := s'.used + n })
  else (.error "entropy source is unavailable", s)

instance : EntropySource Script where
  request := request
  length_of_granted := by
    intro n s bytes s' h
    simp only [request] at h
    split at h
    · rename_i hn
      simp only [Prod.mk.injEq, Except.ok.injEq] at h
      rw [← h.1, List.length_take]
      omega
    · simp at h

end Script

end DlogProof
