import DlogProof.Proofs.Soundness
import Mathlib.GroupTheory.OrderOfElement

namespace DlogProof

variable {limbs : Nat}

/-- The integer with one of its bits flipped. -/
def Uint.flipBit (a : Uint limbs) (j : Fin (bitWidth limbs)) : Uint limbs :=
  ⟨a.val ^^^ 2 ^ j.val,
    Nat.xor_lt_two_pow a.val_lt (Nat.pow_lt_pow_right (by decide) j.isLt)⟩

/-- The multiplicative order of the base. -/
noncomputable def Statement.baseOrder (s : Statement limbs) : ℕ :=
  orderOf (s.base.val : ZMod s.modulus.val)

/-- Powers of a unit agree exactly if their exponents agree modulo its order. -/
theorem pow_modEq_pow_iff {b n k l : ℕ} (hc : b.Coprime n) :
    b ^ k ≡ b ^ l [MOD n] ↔ k ≡ l [MOD orderOf (b : ZMod n)] := by
  rw [← ZMod.natCast_eq_natCast_iff, Nat.cast_pow, Nat.cast_pow, ← ZMod.coe_unitOfCoprime b hc,
    ← Units.val_pow_eq_pow_val, ← Units.val_pow_eq_pow_val, Units.val_inj, orderOf_units]
  exact pow_eq_pow_iff_modEq

/-- Flipping a bit adds or takes away its weight. -/
theorem xor_two_pow_cases (a j : ℕ) :
    a ^^^ 2 ^ j = a + 2 ^ j ∨ a = (a ^^^ 2 ^ j) + 2 ^ j := by
  induction j generalizing a with
  | zero =>
    rcases Nat.even_or_odd a with h | h
    · exact Or.inl (Nat.xor_one_of_even h)
    · refine Or.inr ?_
      rw [pow_zero, Nat.xor_one_of_odd h]
      exact (Nat.sub_add_cancel h.pos).symm
  | succ j ih =>
    -- The lowest bit stays, and half of the integer has its bit `j` flipped.
    have hdiv : (a ^^^ 2 ^ (j + 1)) / 2 = a / 2 ^^^ 2 ^ j := by
      rw [Nat.xor_div_two, pow_succ, Nat.mul_div_cancel _ Nat.two_pos]
    have hmod : (a ^^^ 2 ^ (j + 1)) % 2 = a % 2 := by
      rw [Nat.xor_mod_two_eq, pow_succ, Nat.add_mul_mod_self_right]
    have hpow : 2 ^ (j + 1) = 2 * 2 ^ j := pow_succ' 2 j
    rcases ih (a / 2) with h | h
    · exact Or.inl (by omega)
    · exact Or.inr (by omega)

/-- No odd number above one divides the difference that a flipped bit makes. -/
theorem not_modEq_xor_two_pow {d : ℕ} (hodd : Odd d) (hd : 1 < d) (a j : ℕ) :
    ¬ a ^^^ 2 ^ j ≡ a [MOD d] := by
  have hpow : ¬ 2 ^ j ≡ 0 [MOD d] := by
    intro h
    have hc : d.Coprime (2 ^ j) := hodd.coprime_two_right.pow_right j
    exact hd.ne' (hc.eq_one_of_dvd (Nat.modEq_zero_iff_dvd.mp h))
  intro h
  apply hpow
  rcases xor_two_pow_cases a j with he | he
  · rw [he] at h
    exact Nat.ModEq.add_left_cancel' a h
  · nth_rewrite 2 [he] at h
    exact (Nat.ModEq.add_left_cancel' (a ^^^ 2 ^ j) h).symm

namespace Proof

/-- The proof with one bit of one response flipped. -/
def flipResponseBit (proof : Proof limbs) (i : Fin iterations) (j : Fin (Uint.bitWidth limbs)) :
    Proof limbs :=
  { proof with
    responses := proof.responses.set i ((proof.response i).flipBit j)
    responses_length := by rw [List.length_set, proof.responses_length] }

theorem response_flipResponseBit (proof : Proof limbs) (i : Fin iterations)
    (j : Fin (Uint.bitWidth limbs)) :
    (proof.flipResponseBit i j).response i = (proof.response i).flipBit j :=
  List.getElem_set_self _

/-- The conditions on two proofs with the same commitments differ in the responses only. -/
theorem Accepted.iff_of_commitments {proof proof' : Proof limbs} {s : Statement limbs}
    {c : Fin iterations → Bool} (ha : proof.Accepted s c)
    (h : proof'.commitments = proof.commitments) :
    proof'.Accepted s c ↔ ∀ i, s.base.val ^ (proof'.response i).val ≡
      s.base.val ^ (proof.response i).val [MOD s.modulus.val] := by
  have hcommit := commitment_congr h
  constructor
  · intro ha' i
    have he := ha'.equation i
    rw [hcommit] at he
    exact he.trans (ha.equation i).symm
  · intro hpow
    refine ⟨ha.odd, ha.base_range, ha.power_range, fun i => ?_, fun i => ?_⟩
    · rw [hcommit]
      exact ha.commitment_range i
    · rw [hcommit]
      exact (hpow i).trans (ha.equation i)

theorem verify_iff_of_commitments {digest : Xof} {proof proof' : Proof limbs}
    {s : Statement limbs} (hc : s.base.val.Coprime s.modulus.val)
    (hv : proof.verify digest s = true) (h : proof'.commitments = proof.commitments) :
    proof'.verify digest s = true ↔
      ∀ i, (proof'.response i).val ≡ (proof.response i).val [MOD s.baseOrder] := by
  rw [verify_eq_true_iff, h, (verify_eq_true_iff.mp hv).iff_of_commitments h]
  exact forall_congr' fun i => pow_modEq_pow_iff hc

/-- The responses of an accepted proof are fixed up to multiples of the order of the base. So if the
order is odd and the base is not one, no bit of them can be flipped unnoticed. -/
theorem responses_fixed_modulo_order {digest : Xof} {proof : Proof limbs} {s : Statement limbs}
    (hc : s.base.val.Coprime s.modulus.val) (hv : proof.verify digest s = true) :
    (∀ proof' : Proof limbs, proof'.commitments = proof.commitments →
      (proof'.verify digest s = true ↔
        ∀ i, (proof'.response i).val ≡ (proof.response i).val [MOD s.baseOrder])) ∧
    (Odd s.baseOrder → 1 < s.baseOrder →
      ∀ i j, (proof.flipResponseBit i j).verify digest s = false) := by
  refine ⟨fun proof' h => verify_iff_of_commitments hc hv h, fun hodd hgt i j => ?_⟩
  apply Bool.eq_false_of_not_eq_true
  intro hflip
  have hcommit : (proof.flipResponseBit i j).commitments = proof.commitments := rfl
  have hi := (verify_iff_of_commitments hc hv hcommit).mp hflip i
  rw [response_flipResponseBit] at hi
  exact not_modEq_xor_two_pow hodd hgt _ _ hi

end Proof

theorem Statement.baseOrder_modSeven (power : Uint 1) : (modSeven power).baseOrder = 3 := by
  show orderOf ((2 : ℕ) : ZMod 7) = 3
  exact orderOf_eq_prime (by decide) (by decide)

/-- The responses two may be replaced by five, as two has the order three modulo seven. -/
theorem Proof.responses_fixed_modulo_order_modSeven :
    (Proof.uniform ⟨1, by decide⟩ ⟨5, by decide⟩ : Proof 1).verify (Xof.constant fun _ => true)
        (.modSeven ⟨4, by decide⟩) = true ∧
      ∀ i j, ((Proof.uniform ⟨1, by decide⟩ ⟨2, by decide⟩ : Proof 1).flipResponseBit i j).verify
        (Xof.constant fun _ => true) (.modSeven ⟨4, by decide⟩) = false := by
  have hv : (Proof.uniform ⟨1, by decide⟩ ⟨2, by decide⟩ : Proof 1).verify
      (Xof.constant fun _ => true) (.modSeven ⟨4, by decide⟩) = true := by decide +kernel
  have hfixed := Proof.responses_fixed_modulo_order (by decide) hv
  rw [Statement.baseOrder_modSeven] at hfixed
  refine ⟨(hfixed.1 _ rfl).mpr fun i => ?_, hfixed.2 (by decide) (by decide)⟩
  simp only [Proof.response, Proof.uniform, List.get_eq_getElem, List.getElem_replicate]
  decide

end DlogProof
