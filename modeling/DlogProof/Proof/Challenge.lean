import DlogProof.Proof.Basic
import DlogProof.Shake.Xof
import DlogProof.Uint.Encoding

namespace DlogProof

/-- A byte string with its length in front of it. -/
def chunk (bytes : List UInt8) : List UInt8 := beBytes 8 bytes.length ++ bytes

/-- What the hash is fed for a sequence of byte strings. -/
def transcriptOf (strings : List (List UInt8)) : List UInt8 := strings.flatMap chunk

/-- The ASCII bytes of `P_dln`, which separate these challenges from other uses of the hash. -/
def domainTag : List UInt8 := [0x50, 0x5f, 0x64, 0x6c, 0x6e]

/-- The bits of a byte, most significant first. -/
def byteBits (b : UInt8) : List Bool := (List.range 8).map fun i => b.toNat.testBit (7 - i)

/-- The first `k` bits of a byte string. -/
def unpackBits (k : Nat) (bytes : List UInt8) : List Bool := (bytes.flatMap byteBits).take k

theorem byteBits_length (b : UInt8) : (byteBits b).length = 8 := by simp [byteBits]

theorem unpackBits_length {k : Nat} {bytes : List UInt8} (h : k ≤ 8 * bytes.length) :
    (unpackBits k bytes).length = k := by
  have hl : ∀ bs : List UInt8, (bs.flatMap byteBits).length = 8 * bs.length := by
    intro bs
    induction bs with
    | nil => rfl
    | cons b bs ih =>
      rw [List.flatMap_cons, List.length_append, byteBits_length, ih, List.length_cons]
      omega
  rw [unpackBits, List.length_take, hl]
  omega

namespace Statement

variable {limbs : Nat}

/-- What the hash is fed for a statement and the commitments of its proof. -/
def transcript (s : Statement limbs) (commitments : List (Uint limbs)) : List UInt8 :=
  transcriptOf (domainTag :: s.base.toBytes :: s.power.toBytes :: s.modulus.toBytes ::
    commitments.map Uint.toBytes)

/-- The bytes read from the hash. -/
def challengeBytes (digest : Xof) (s : Statement limbs) (commitments : List (Uint limbs)) :
    List UInt8 :=
  digest.output (s.transcript commitments) ((iterations + 7) / 8)

/-- The challenge bits, one for each repetition. -/
def challenge (digest : Xof) (s : Statement limbs) (commitments : List (Uint limbs)) : List Bool :=
  unpackBits iterations (s.challengeBytes digest commitments)

theorem challenge_length (digest : Xof) (s : Statement limbs) (commitments : List (Uint limbs)) :
    (s.challenge digest commitments).length = iterations := by
  have h : iterations ≤ 8 * ((iterations + 7) / 8) := by decide
  apply unpackBits_length
  simpa only [challengeBytes, digest.output_length] using h

end Statement

end DlogProof
