import DlogProof.Proofs.ByteParts

namespace DlogProof

/-- A block read as a number, of which the lowest bits count, as many as the bound has. -/
def blockValue (bound : ℕ) (block : List UInt8) : ℕ := beValue block % 2 ^ bitLength bound

/-- Whether a block yields a number in `[1, bound)`. -/
def Yields (bound : ℕ) (block : List UInt8) : Prop :=
  0 < blockValue bound block ∧ blockValue bound block < bound

instance (bound : ℕ) (block : List UInt8) : Decidable (Yields bound block) :=
  inferInstanceAs (Decidable (_ ∧ _))

/-- The bits of a block that the mask takes away are free. -/
theorem pow_blockLength (bits : ℕ) :
    256 ^ blockLength bits = 2 ^ bits * 2 ^ (8 * blockLength bits - bits) := by
  have hle : bits ≤ 8 * blockLength bits := by rw [blockLength]; omega
  rw [← Nat.pow_add, Nat.add_sub_cancel' hle, Nat.pow_mul]

/-- Every number up to the bound is the value of some block. -/
theorem blockValue_beBytes {bound v : ℕ} (hv : v ≤ bound) :
    blockValue bound (beBytes (blockLength (bitLength bound)) v) = v := by
  rw [blockValue, beValue_beBytes, pow_blockLength, Nat.mod_mul_right_mod]
  exact Nat.mod_eq_of_lt (hv.trans_lt (lt_two_pow_bitLength bound))

theorem toNat_and_highByteMask (b : UInt8) (bits : ℕ) :
    (b &&& highByteMask bits).toNat = b.toNat % 2 ^ ((bits + 7) % 8 + 1) := by
  have hmask : (highByteMask bits).toNat = 2 ^ ((bits + 7) % 8 + 1) - 1 := by
    rw [highByteMask]
    by_cases h : bits % 8 = 0
    · rw [if_pos h, show (bits + 7) % 8 = 7 by omega]
      rfl
    · have hlt : 2 ^ (bits % 8) < 2 ^ 8 := Nat.pow_lt_pow_right (by decide) (by omega)
      rw [if_neg h, show (bits + 7) % 8 + 1 = bits % 8 by omega, UInt8.toNat_ofNat',
        Nat.mod_eq_of_lt (by omega)]
  rw [UInt8.toNat_and, hmask, Nat.and_two_pow_sub_one_eq_mod]

/-- Masking the first byte of a block leaves the lowest bits of its value. -/
theorem beValue_maskBlock {bits : ℕ} {block : List UInt8}
    (h : block.length = blockLength bits) :
    beValue (maskBlock bits block) = beValue block % 2 ^ bits := by
  rw [blockLength] at h
  cases block with
  | nil =>
    rw [List.length_nil] at h
    rw [show bits = 0 by omega]
    rfl
  | cons b rest =>
    rw [List.length_cons] at h
    have hbits : 2 ^ bits = 256 ^ rest.length * 2 ^ ((bits + 7) % 8 + 1) := by
      rw [show (256 : ℕ) = 2 ^ 8 from rfl, ← Nat.pow_mul, ← Nat.pow_add]
      congr 1
      omega
    have hrest := beValue_lt rest
    have hlow : (256 ^ rest.length * b.toNat + beValue rest) % 256 ^ rest.length =
        beValue rest := by
      rw [Nat.mul_add_mod, Nat.mod_eq_of_lt hrest]
    have hhigh : (256 ^ rest.length * b.toNat + beValue rest) / 256 ^ rest.length = b.toNat := by
      rw [Nat.mul_add_div (Nat.pow_pos (by decide)), Nat.div_eq_of_lt hrest, Nat.add_zero]
    rw [maskBlock, beValue_cons, beValue_cons, toNat_and_highByteMask, hbits, Nat.mod_mul, hlow,
      hhigh, Nat.add_comm]

section Attempt

variable {limbs : Nat} {bound v : Uint limbs} {block : List UInt8}

/-- What one attempt gives: the value of the block if it lies in the range, and otherwise nothing.
Reading the block cannot fail, because it has no more bits than the bound. -/
theorem sampleOfBlock_eq (h : block.length = blockLength bound.bits) :
    ∃ candidate : Uint limbs, candidate.val = blockValue bound.val block ∧
      sampleOfBlock bound block =
        .ok (if Yields bound.val block then some candidate else none) := by
  have hfit : blockValue bound.val block < 2 ^ (64 * limbs) :=
    (Nat.mod_lt _ (Nat.two_pow_pos _)).trans_le
      (Nat.pow_le_pow_right (by decide) bound.bits_le_bitWidth)
  refine ⟨⟨_, hfit⟩, rfl, ?_⟩
  have hread : (Uint.ofBytes (maskBlock bound.bits block) : Except EncodingError (Uint limbs)) =
      .ok ⟨_, hfit⟩ := Uint.ofBytes_eq_ok_iff.mpr (beValue_maskBlock h).symm
  rw [sampleOfBlock, hread]
  rfl

theorem sampleOfBlock_eq_some_iff (h : block.length = blockLength bound.bits) :
    sampleOfBlock bound block = .ok (some v) ↔
      Yields bound.val block ∧ v.val = blockValue bound.val block := by
  obtain ⟨candidate, hvalue, hsample⟩ := sampleOfBlock_eq h
  rw [hsample, ← hvalue, Uint.val_inj]
  by_cases hyields : Yields bound.val block
  · rw [if_pos hyields, and_iff_right hyields, Except.ok.injEq, Option.some.injEq, eq_comm]
  · simp [hyields]

theorem sampleOfBlock_eq_none_iff (h : block.length = blockLength bound.bits) :
    sampleOfBlock bound block = .ok none ↔ ¬ Yields bound.val block := by
  obtain ⟨candidate, -, hsample⟩ := sampleOfBlock_eq h
  rw [hsample]
  by_cases hyields : Yields bound.val block <;> simp [hyields]

theorem exists_sampleOfBlock_eq_some_iff (h : block.length = blockLength bound.bits) :
    (∃ v, sampleOfBlock bound block = .ok (some v)) ↔ Yields bound.val block := by
  obtain ⟨candidate, -, hsample⟩ := sampleOfBlock_eq h
  rw [hsample]
  by_cases hyields : Yields bound.val block <;> simp [hyields]

section Source

variable {σ : Type} [EntropySource σ] {s s' : σ}

/-- An attempt takes one block of the source, and nothing goes wrong when it is read. -/
theorem attemptBelow_of_granted
    (h : EntropySource.request (blockLength bound.bits) s = (.ok block, s')) :
    ∃ sample, sampleOfBlock bound block = .ok sample ∧
      attemptBelow bound s = (.ok sample, s') := by
  obtain ⟨candidate, -, hsample⟩ := sampleOfBlock_eq (EntropySource.length_of_granted h)
  have hbytes : (Draw.bytes SamplingError.source (blockLength bound.bits) : Draw σ _ _) s =
      (.ok block, s') := by
    rw [Draw.bytes, h]
  refine ⟨_, hsample, ?_⟩
  rw [attemptBelow, Draw.bind_ok hbytes, hsample]
  rfl

theorem attemptBelow_of_refused {reason : String}
    (h : EntropySource.request (blockLength bound.bits) s = (.error reason, s')) :
    attemptBelow bound s = (.error (.failed (.source reason)), s') := by
  have hbytes : (Draw.bytes SamplingError.source (blockLength bound.bits) : Draw σ _ _) s =
      (.error (.failed (.source reason)), s') := by
    rw [Draw.bytes, h]
  rw [attemptBelow, Draw.bind_error hbytes]

/-- A block that yields a number is all that drawing it takes. -/
theorem drawPositiveBelow_of_granted (fuel : ℕ) (hv : 0 < v.val ∧ v.val < bound.val)
    (h : EntropySource.request (blockLength bound.bits) s = (.ok block, s'))
    (hblock : blockValue bound.val block = v.val) :
    drawPositiveBelow (fuel + 1) bound s = (.ok v, s') := by
  have hyields : Yields bound.val block := by rwa [Yields, hblock]
  obtain ⟨sample, hsample, hattempt⟩ := attemptBelow_of_granted h
  have hvalue := (sampleOfBlock_eq_some_iff (EntropySource.length_of_granted h)).mpr
    ⟨hyields, hblock.symm⟩
  cases hsample.symm.trans hvalue
  have hbits : ¬ bound.bits ≤ 1 := by
    rw [Uint.bits_le_iff]
    omega
  rw [drawPositiveBelow, if_neg (by omega), Draw.untilSome, Draw.bind_ok hattempt]
  rfl

end Source

end Attempt

end DlogProof
