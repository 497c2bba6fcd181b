import DlogProof.Proof.Challenge
import Mathlib.Data.Nat.Bitwise

namespace DlogProof

theorem byteBits_getElem? (b : UInt8) {r : Nat} (hr : r < 8) :
    (byteBits b)[r]? = some (b.toNat.testBit (7 - r)) := by
  simp [byteBits, hr]

/-- Bit `i` of a byte string is bit `7 - i % 8` of byte `i / 8`. -/
theorem flatMap_byteBits_getElem? (bytes : List UInt8) (i : Nat) :
    (bytes.flatMap byteBits)[i]? = bytes[i / 8]?.map fun b => b.toNat.testBit (7 - i % 8) := by
  induction bytes generalizing i with
  | nil => simp
  | cons b bytes ih =>
    have hb := byteBits_length b
    rw [List.flatMap_cons]
    by_cases hi : i < 8
    · rw [List.getElem?_append_left (by omega), byteBits_getElem? b hi, Nat.div_eq_of_lt hi,
        Nat.mod_eq_of_lt hi]
      rfl
    · have hd : i / 8 = (i - 8) / 8 + 1 := by omega
      have hm : i % 8 = (i - 8) % 8 := by omega
      rw [List.getElem?_append_right (by omega), hb, ih, hd, hm, List.getElem?_cons_succ]

theorem unpackBits_getElem? {k i : Nat} (bytes : List UInt8) (hi : i < k) :
    (unpackBits k bytes)[i]? = bytes[i / 8]?.map fun b => b.toNat.testBit (7 - i % 8) := by
  rw [unpackBits, List.getElem?_take_of_lt hi, flatMap_byteBits_getElem?]

/-- The byte with the given bits, most significant first. -/
def byteOfBits (c : Nat → Bool) : UInt8 := UInt8.ofNat (Nat.ofBits fun r : Fin 8 => c (7 - r.val))

theorem testBit_byteOfBits (c : Nat → Bool) {r : Nat} (hr : r < 8) :
    (byteOfBits c).toNat.testBit (7 - r) = c r := by
  have hlt := Nat.ofBits_lt_two_pow fun r : Fin 8 => c (7 - r.val)
  rw [byteOfBits, UInt8.toNat_ofNat', Nat.mod_eq_of_lt hlt,
    Nat.testBit_ofBits_lt _ _ (by omega : 7 - r < 8)]
  exact congrArg c (Nat.sub_sub_self (by omega : r ≤ 7))

/-- The hash whose output has the bits `c`, whatever the message. -/
def Xof.constant (c : Nat → Bool) : Xof where
  output _ n := (List.range n).map fun j => byteOfBits fun r => c (8 * j + r)
  output_length := by simp

namespace Statement

variable {limbs : Nat}

/-- The challenge bit of repetition `i`. -/
def challengeBit (digest : Xof) (s : Statement limbs) (commitments : List (Uint limbs))
    (i : Fin iterations) : Bool :=
  (s.challenge digest commitments).get (i.cast (s.challenge_length digest commitments).symm)

theorem challenge_getElem? (digest : Xof) (s : Statement limbs) (commitments : List (Uint limbs))
    (i : Fin iterations) :
    (s.challenge digest commitments)[i.val]? = some (s.challengeBit digest commitments i) := by
  simp [challengeBit]

theorem challengeBit_constant (c : Nat → Bool) (s : Statement limbs)
    (commitments : List (Uint limbs)) (i : Fin iterations) :
    s.challengeBit (Xof.constant c) commitments i = c i.val := by
  have hi : i.val / 8 < (iterations + 7) / 8 := by omega
  have hb : (s.challenge (Xof.constant c) commitments)[i.val]? = some (c i.val) := by
    rw [challenge, unpackBits_getElem? _ i.isLt, challengeBytes, Xof.constant,
      List.getElem?_map, List.getElem?_range hi]
    simp only [Option.map_some, testBit_byteOfBits _ (Nat.mod_lt i.val (by decide : 0 < 8)),
      Nat.div_add_mod]
  exact Option.some.inj ((challenge_getElem? _ s commitments i).symm.trans hb)

/-- Every challenge vector comes from some hash. -/
theorem exists_challengeBit_eq (c : Fin iterations → Bool) (s : Statement limbs)
    (commitments : List (Uint limbs)) :
    ∃ digest, s.challengeBit digest commitments = c := by
  refine ⟨Xof.constant fun i => if h : i < iterations then c ⟨i, h⟩ else false, ?_⟩
  funext i
  rw [challengeBit_constant, dif_pos i.isLt]

end Statement

end DlogProof
