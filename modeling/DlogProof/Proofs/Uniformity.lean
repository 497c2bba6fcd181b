import DlogProof.Proofs.Blocks
import Mathlib.Algebra.Order.BigOperators.Group.Finset
import Mathlib.Data.Rat.Cast.Order
import Mathlib.Data.Set.Card
import Mathlib.Order.Interval.Finset.Nat
import Mathlib.Tactic.FieldSimp
import Mathlib.Tactic.Linarith

namespace DlogProof

/-- Counting blocks of `n` bytes is counting the numbers below `256 ^ n`. -/
theorem ncard_blocks (n : ℕ) (p : ℕ → Prop) [DecidablePred p] :
    {block : List UInt8 | block.length = n ∧ p (beValue block)}.ncard =
      ((Finset.range (256 ^ n)).filter p).card := by
  have hinj : Set.InjOn beValue {block : List UInt8 | block.length = n ∧ p (beValue block)} :=
    fun a ha b hb h => eq_of_beValue_eq (ha.1.trans hb.1.symm) h
  have himage : beValue '' {block : List UInt8 | block.length = n ∧ p (beValue block)} =
      ((Finset.range (256 ^ n)).filter p : Set ℕ) := by
    ext k
    simp only [Set.mem_image, Set.mem_ofPred_eq, Finset.coe_filter, Finset.mem_range]
    constructor
    · rintro ⟨block, ⟨hl, hp⟩, rfl⟩
      exact ⟨hl ▸ beValue_lt block, hp⟩
    · rintro ⟨hk, hp⟩
      have hv : beValue (beBytes n k) = k := by rw [beValue_beBytes, Nat.mod_eq_of_lt hk]
      exact ⟨beBytes n k, ⟨beBytes_length n k, hv.symm ▸ hp⟩, hv⟩
  rw [← hinj.ncard_image, himage, Set.ncard_coe_finset]

/-- Each remainder modulo `m` is that of `count` of the numbers below `m * count`. -/
theorem card_filter_mod_eq {m v : ℕ} (hv : v < m) (count : ℕ) :
    ((Finset.range (m * count)).filter fun k => k % m = v).card = count := by
  have hm : 0 < m := Nat.zero_lt_of_lt hv
  have himage : ((Finset.range (m * count)).filter fun k => k % m = v) =
      (Finset.range count).image fun j => m * j + v := by
    ext k
    simp only [Finset.mem_filter, Finset.mem_range, Finset.mem_image]
    constructor
    · rintro ⟨hk, rfl⟩
      exact ⟨k / m, Nat.div_lt_of_lt_mul hk, Nat.div_add_mod k m⟩
    · rintro ⟨j, hj, rfl⟩
      refine ⟨?_, by rw [Nat.mul_add_mod, Nat.mod_eq_of_lt hv]⟩
      calc m * j + v < m * (j + 1) := by rw [Nat.mul_succ]; omega
        _ ≤ m * count := Nat.mul_le_mul_left m hj
  have hinj : Function.Injective fun j => m * j + v := fun a b h =>
    Nat.eq_of_mul_eq_mul_left hm (Nat.add_right_cancel h)
  rw [himage, Finset.card_image_of_injective _ hinj, Finset.card_range]

theorem card_filter_mod_mem {m bound : ℕ} (hb : bound ≤ m) (count : ℕ) :
    ((Finset.range (m * count)).filter fun k => 0 < k % m ∧ k % m < bound).card =
      (bound - 1) * count := by
  have hmaps : ∀ k ∈ (Finset.range (m * count)).filter fun k => 0 < k % m ∧ k % m < bound,
      k % m ∈ Finset.Ico 1 bound := fun k hk => Finset.mem_Ico.mpr (Finset.mem_filter.mp hk).2
  rw [Finset.card_eq_sum_card_fiberwise hmaps, ← Nat.card_Ico]
  apply Finset.sum_const_nat
  intro v hv
  obtain ⟨hpos, hlt⟩ := Finset.mem_Ico.mp hv
  have hsame : ((Finset.range (m * count)).filter fun k =>
      (0 < k % m ∧ k % m < bound) ∧ k % m = v) =
        (Finset.range (m * count)).filter fun k => k % m = v := by
    apply Finset.filter_congr
    intro k _
    constructor
    · exact And.right
    · rintro rfl
      exact ⟨⟨hpos, hlt⟩, rfl⟩
  rw [Finset.filter_filter, hsame, card_filter_mod_eq (hlt.trans_le hb) count]

variable {limbs : Nat}

/-- The blocks that one attempt to draw an integer below a bound may be given. -/
def blocksFor (bound : Uint limbs) : Set (List UInt8) :=
  {block | block.length = blockLength bound.bits}

/-- The blocks from which one attempt draws an integer. -/
def acceptedBlocks (bound : Uint limbs) : Set (List UInt8) :=
  {block ∈ blocksFor bound | ∃ v, sampleOfBlock bound block = .ok (some v)}

/-- The share of the blocks from which one attempt draws an integer. -/
noncomputable def acceptanceRate (bound : Uint limbs) : ℚ :=
  (acceptedBlocks bound).ncard / (blocksFor bound).ncard

theorem ncard_blocksFor (bound : Uint limbs) :
    (blocksFor bound).ncard = 256 ^ blockLength bound.bits := by
  have hset : blocksFor bound = {block | block.length = blockLength bound.bits ∧ True} := by
    simp only [and_true, blocksFor]
  rw [hset, ncard_blocks _ fun _ => True, Finset.filter_true, Finset.card_range]

theorem ncard_blocksOf {bound v : Uint limbs} (hv : 0 < v.val ∧ v.val < bound.val) :
    {block ∈ blocksFor bound | sampleOfBlock bound block = .ok (some v)}.ncard =
      2 ^ (8 * blockLength bound.bits - bound.bits) := by
  have hset : {block ∈ blocksFor bound | sampleOfBlock bound block = .ok (some v)} =
      {block | block.length = blockLength bound.bits ∧
        beValue block % 2 ^ bound.bits = v.val} := by
    ext block
    apply and_congr_right
    intro hl
    rw [sampleOfBlock_eq_some_iff hl]
    constructor
    · rintro ⟨-, hval⟩
      exact hval.symm
    · intro hval
      have hval' : blockValue bound.val block = v.val := hval
      exact ⟨by rwa [Yields, hval'], hval'.symm⟩
  rw [hset, ncard_blocks _ fun k => k % 2 ^ bound.bits = v.val, pow_blockLength]
  exact card_filter_mod_eq (hv.2.trans (lt_two_pow_bitLength _)) _

theorem ncard_acceptedBlocks (bound : Uint limbs) :
    (acceptedBlocks bound).ncard =
      (bound.val - 1) * 2 ^ (8 * blockLength bound.bits - bound.bits) := by
  have hset : acceptedBlocks bound =
      {block | block.length = blockLength bound.bits ∧
        (0 < beValue block % 2 ^ bound.bits ∧ beValue block % 2 ^ bound.bits < bound.val)} := by
    ext block
    apply and_congr_right
    intro hl
    exact exists_sampleOfBlock_eq_some_iff hl
  rw [hset, ncard_blocks _ fun k => 0 < k % 2 ^ bound.bits ∧ k % 2 ^ bound.bits < bound.val,
    pow_blockLength]
  exact card_filter_mod_mem (lt_two_pow_bitLength _).le _

theorem acceptanceRate_eq (bound : Uint limbs) (hb : 0 < bound.val) :
    acceptanceRate bound = (bound.val - 1) / 2 ^ bound.bits := by
  have hfree : (2 : ℚ) ^ (8 * blockLength bound.bits - bound.bits) ≠ 0 := by positivity
  rw [acceptanceRate, ncard_acceptedBlocks, ncard_blocksFor, pow_blockLength]
  push_cast [Nat.one_le_iff_ne_zero.mpr hb.ne']
  exact mul_div_mul_right _ _ hfree

theorem Uint.two_pow_le_val {a : Uint limbs} {k : ℕ} (h : k < a.bits) : 2 ^ k ≤ a.val := by
  by_contra hlt
  have := bits_le_iff.mpr (Nat.not_le.mp hlt)
  omega

section Rate

variable {bound : Uint limbs} (hb : 2 ≤ bound.bits)
include hb

/-- The rate, with the largest power of two up to the bound. -/
theorem acceptanceRate_eq_half :
    acceptanceRate bound = (bound.val - 1) / (2 * (2 ^ (bound.bits - 1) : ℕ)) := by
  have hpos : 0 < bound.val := (Nat.two_pow_pos _).trans_le (Uint.two_pow_le_val hb)
  have hpow : 2 ^ bound.bits = 2 * 2 ^ (bound.bits - 1) := by
    rw [← pow_succ', Nat.sub_add_cancel (by omega)]
  rw [acceptanceRate_eq bound hpos]
  congr 1
  exact_mod_cast hpow

theorem quarter_le_acceptanceRate : 1 / 4 ≤ acceptanceRate bound := by
  have hlow : ((2 ^ (bound.bits - 1) : ℕ) : ℚ) ≤ bound.val := by
    exact_mod_cast Uint.two_pow_le_val (by omega)
  have htwo : (2 : ℚ) ≤ (2 ^ (bound.bits - 1) : ℕ) := by
    exact_mod_cast Nat.pow_le_pow_right Nat.two_pos (by omega : 1 ≤ bound.bits - 1)
  rw [acceptanceRate_eq_half hb, le_div_iff₀ (by linarith)]
  linarith

theorem half_lt_acceptanceRate_iff :
    1 / 2 < acceptanceRate bound ↔ 2 ^ (bound.bits - 1) + 1 < bound.val := by
  have hpos : (0 : ℚ) < (2 ^ (bound.bits - 1) : ℕ) := by exact_mod_cast Nat.two_pow_pos _
  have hcast : 2 ^ (bound.bits - 1) + 1 < bound.val ↔
      ((2 ^ (bound.bits - 1) : ℕ) : ℚ) + 1 < bound.val := by norm_cast
  rw [acceptanceRate_eq_half hb, lt_div_iff₀ (by linarith), hcast]
  constructor <;> intro h <;> linarith

end Rate

/-- One attempt is uniform: each number in the range comes from the same number of blocks, and every
other block is rejected. At least a quarter of the blocks are accepted, but more than half of them
only if the bound is more than one above the largest power of two up to it. -/
theorem sampleOfBlock_uniform (bound : Uint limbs) (hb : 2 ≤ bound.bits) :
    (blocksFor bound).ncard = 256 ^ blockLength bound.bits ∧
    (∀ v : Uint limbs, 0 < v.val ∧ v.val < bound.val →
      {block ∈ blocksFor bound | sampleOfBlock bound block = .ok (some v)}.ncard =
        2 ^ (8 * blockLength bound.bits - bound.bits)) ∧
    (∀ block ∈ blocksFor bound, sampleOfBlock bound block = .ok none ∨
      ∃ v, (0 < v.val ∧ v.val < bound.val) ∧ sampleOfBlock bound block = .ok (some v)) ∧
    (∀ (σ : Type) [EntropySource σ] (s s' : σ) (block : List UInt8),
      EntropySource.request (blockLength bound.bits) s = (.ok block, s') →
        ∃ sample, sampleOfBlock bound block = .ok sample ∧
          attemptBelow bound s = (.ok sample, s')) ∧
    acceptanceRate bound = (bound.val - 1) / 2 ^ bound.bits ∧
    1 / 4 ≤ acceptanceRate bound ∧
    (1 / 2 < acceptanceRate bound ↔ 2 ^ (bound.bits - 1) + 1 < bound.val) := by
  have hpos : 0 < bound.val := (Nat.two_pow_pos _).trans_le (Uint.two_pow_le_val hb)
  refine ⟨ncard_blocksFor bound, fun v => ncard_blocksOf, fun block hblock => ?_,
    fun σ _ s s' block => attemptBelow_of_granted, acceptanceRate_eq bound hpos,
    quarter_le_acceptanceRate hb, half_lt_acceptanceRate_iff hb⟩
  have hlength : block.length = blockLength bound.bits := hblock
  obtain ⟨v, hval, hsample⟩ := sampleOfBlock_eq hlength
  by_cases hyields : Yields bound.val block
  · rw [if_pos hyields] at hsample
    exact Or.inr ⟨v, by rwa [hval], hsample⟩
  · rw [if_neg hyields] at hsample
    exact Or.inl hsample

/-- For a power of two, fewer than half of the blocks are accepted. -/
theorem sampleOfBlock_uniform_four :
    let bound : Uint 1 := ⟨4, by decide⟩
    2 ≤ bound.bits ∧
      {block ∈ blocksFor bound | sampleOfBlock bound block = .ok (some ⟨3, by decide⟩)}.ncard = 32 ∧
      acceptanceRate bound = 3 / 8 := by
  intro bound
  have hb : 2 ≤ bound.bits := by decide +kernel
  have hbits : bound.bits = 3 := by decide +kernel
  obtain ⟨-, hcount, -, -, hrate, -⟩ := sampleOfBlock_uniform bound hb
  refine ⟨hb, ?_, ?_⟩
  · rw [hcount _ (by decide), hbits]
    rfl
  · rw [hrate, hbits]
    norm_num [bound]

end DlogProof
