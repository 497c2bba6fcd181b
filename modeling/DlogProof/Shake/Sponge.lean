import DlogProof.BigEndian
import DlogProof.Shake.Permutation

namespace DlogProof.Shake

/-- The number of bytes absorbed or squeezed per permutation. -/
def rate : Nat := 136

/-- The message followed by its padding, a positive multiple of the rate. -/
def padMessage (message : List UInt8) : List UInt8 :=
  let gap := rate - message.length % rate
  if gap = 1 then message ++ [0x9f]
  else message ++ 0x1f :: (List.replicate (gap - 2) 0 ++ [0x80])

/-- The 64-bit words of a byte string, least significant byte first. -/
def wordsOfBytes : Nat → List UInt8 → List UInt64
  | 0, _ => []
  | n + 1, bytes => UInt64.ofNat (leValue (bytes.take 8)) :: wordsOfBytes n (bytes.drop 8)

/-- Adds one block to the state and permutes it. -/
def absorbBlock (a : Lanes) (block : List UInt8) : Lanes :=
  let words := (wordsOfBytes (rate / 8) block).toArray
  permute (a.mapIdx fun i lane => lane ^^^ words.getD i 0)

/-- Absorbs `n` blocks. -/
def absorbBlocks : Nat → Lanes → List UInt8 → Lanes
  | 0, a, _ => a
  | n + 1, a, bytes => absorbBlocks n (absorbBlock a (bytes.take rate)) (bytes.drop rate)

/-- The state after the whole message. -/
def absorb (message : List UInt8) : Lanes :=
  let padded := padMessage message
  absorbBlocks (padded.length / rate) (Vector.replicate 25 0) padded

/-- The bytes that a state gives before it is permuted again. -/
def blockOf (a : Lanes) : List UInt8 :=
  (a.toList.take (rate / 8)).flatMap fun w => leBytes 8 w.toNat

/-- The first `n` blocks of output. -/
def squeezeBlocks : Nat → Lanes → List UInt8
  | 0, _ => []
  | n + 1, a => blockOf a ++ squeezeBlocks n (permute a)

/-- The first `n` bytes that follow from a message. -/
def output (message : List UInt8) (n : Nat) : List UInt8 :=
  (squeezeBlocks ((n + rate - 1) / rate) (absorb message)).take n

theorem blockOf_length (a : Lanes) : (blockOf a).length = rate := by
  have h : ∀ ws : List UInt64, (ws.flatMap fun w => leBytes 8 w.toNat).length = 8 * ws.length := by
    intro ws
    induction ws with
    | nil => rfl
    | cons w ws ih => simp only [List.flatMap_cons, List.length_append, leBytes_length, ih,
        List.length_cons]; omega
  rw [blockOf, h]
  simp [rate]

theorem squeezeBlocks_length (n : Nat) (a : Lanes) : (squeezeBlocks n a).length = rate * n := by
  induction n generalizing a with
  | zero => rfl
  | succ n ih =>
    rw [squeezeBlocks, List.length_append, blockOf_length, ih, Nat.mul_succ, Nat.add_comm]

theorem output_length (message : List UInt8) (n : Nat) : (output message n).length = n := by
  rw [output, List.length_take, squeezeBlocks_length]
  simp only [rate]
  omega

end DlogProof.Shake
