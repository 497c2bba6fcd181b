import DlogProof.Proofs.Verification
import Mathlib.Data.Set.Card
import Mathlib.FieldTheory.Finite.Basic

namespace DlogProof

variable {limbs : Nat}

namespace Statement

/-- Whether some responses to the challenge vector `c` make a proof with the given commitments that
the verifier accepts. -/
def Answerable (s : Statement limbs) (commitments : List (Uint limbs))
    (c : Fin iterations → Bool) : Prop :=
  ∃ (digest : Xof) (proof : Proof limbs), proof.commitments = commitments ∧
    s.challengeBit digest commitments = c ∧ proof.verify digest s = true

/-- Answerability is about the equations only, as every challenge vector comes from some hash. -/
theorem answerable_iff {s : Statement limbs} {commitments : List (Uint limbs)}
    {c : Fin iterations → Bool} :
    s.Answerable commitments c ↔
      ∃ proof : Proof limbs, proof.commitments = commitments ∧ proof.Accepted s c := by
  constructor
  · rintro ⟨digest, proof, rfl, rfl, hv⟩
    exact ⟨proof, rfl, Proof.verify_eq_true_iff.mp hv⟩
  · rintro ⟨proof, rfl, ha⟩
    obtain ⟨digest, hd⟩ := exists_challengeBit_eq c s proof.commitments
    exact ⟨digest, proof, rfl, hd, Proof.verify_eq_true_iff.mpr (hd ▸ ha)⟩

end Statement

namespace Proof

theorem commitment_congr {proof proof' : Proof limbs}
    (h : proof.commitments = proof'.commitments) (i : Fin iterations) :
    proof.commitment i = proof'.commitment i := by
  simp only [commitment, List.get_eq_getElem, h, Fin.val_cast]

/-- Of two answers to one commitment, dividing the equations cancels the commitment. -/
theorem Accepted.modEq_mul_power {proof proof' : Proof limbs} {s : Statement limbs}
    {c c' : Fin iterations → Bool} (ha : proof.Accepted s c) (ha' : proof'.Accepted s c')
    (h : proof.commitments = proof'.commitments) {i : Fin iterations}
    (hi : c i = true) (hi' : c' i = false) :
    s.base.val ^ (proof.response i).val ≡
      s.base.val ^ (proof'.response i).val * s.power.val [MOD s.modulus.val] := by
  have e : s.base.val ^ (proof.response i).val ≡
      (proof.commitment i).val * s.power.val [MOD s.modulus.val] := by
    simpa only [hi, Bool.toNat_true, pow_one] using ha.equation i
  have e' : s.base.val ^ (proof'.response i).val ≡
      (proof'.commitment i).val [MOD s.modulus.val] := by
    simpa only [hi', Bool.toNat_false, pow_zero, mul_one] using ha'.equation i
  rw [commitment_congr h] at e
  exact e.trans (e'.symm.mul_right _)

end Proof

theorem eq_unit_zpow_of_modEq {b x n t t' : ℕ} (hc : b.Coprime n)
    (h : b ^ t ≡ b ^ t' * x [MOD n]) :
    (x : ZMod n) = (ZMod.unitOfCoprime b hc ^ ((t : ℤ) - t') : (ZMod n)ˣ) := by
  have hz : (b : ZMod n) ^ t = (b : ZMod n) ^ t' * x := by
    exact_mod_cast (ZMod.natCast_eq_natCast_iff _ _ _).mpr h
  rw [zpow_sub, zpow_natCast, zpow_natCast, mul_comm, Units.val_mul, Units.val_pow_eq_pow_val,
    ZMod.coe_unitOfCoprime, hz, ← mul_assoc, ← ZMod.coe_unitOfCoprime b hc,
    ← Units.val_pow_eq_pow_val, Units.inv_mul, one_mul]

/-- A power with an integer exponent is one with a natural exponent too. -/
theorem exists_pow_modEq {b x n t t' : ℕ} (hn : 0 < n) (hc : b.Coprime n)
    (h : b ^ t ≡ b ^ t' * x [MOD n]) : ∃ k, b ^ k ≡ x [MOD n] := by
  have hp : 0 < n.totient := Nat.totient_pos.mpr hn
  refine ⟨t + t' * (n.totient - 1), ?_⟩
  have he : t' + t' * (n.totient - 1) = n.totient * t' := by
    rw [Nat.add_comm, ← Nat.mul_succ, Nat.succ_eq_add_one, Nat.sub_add_cancel hp, Nat.mul_comm]
  calc b ^ (t + t' * (n.totient - 1))
      = b ^ t * b ^ (t' * (n.totient - 1)) := pow_add _ _ _
    _ ≡ b ^ t' * x * b ^ (t' * (n.totient - 1)) [MOD n] := h.mul_right _
    _ = (b ^ n.totient) ^ t' * x := by rw [mul_right_comm, ← pow_add, he, pow_mul]
    _ ≡ 1 ^ t' * x [MOD n] := ((Nat.ModEq.pow_totient hc).pow _).mul_right _
    _ = x := by rw [one_pow, one_mul]

/-- If the power is none of the base, then one challenge vector at most can be answered. -/
theorem Statement.Answerable.unique {s : Statement limbs} {commitments : List (Uint limbs)}
    {c c' : Fin iterations → Bool} (hc : s.base.val.Coprime s.modulus.val)
    (hn : ∀ k : ℕ, ¬ s.base.val ^ k ≡ s.power.val [MOD s.modulus.val])
    (h : s.Answerable commitments c) (h' : s.Answerable commitments c') : c = c' := by
  obtain ⟨proof, rfl, ha⟩ := Statement.answerable_iff.mp h
  obtain ⟨proof', he, ha'⟩ := Statement.answerable_iff.mp h'
  have hpos : 0 < s.modulus.val := by
    have := ha.odd
    omega
  -- A repetition whose two bits differ gives a discrete logarithm, whichever bit is set.
  have hd : ∀ {d d' : Fin iterations → Bool} {p p' : Proof limbs}, p.Accepted s d →
      p'.Accepted s d' → p.commitments = p'.commitments → ∀ i, d i = true → d' i ≠ false := by
    intro d d' p p' hp hp' hα i hi hi'
    obtain ⟨k, hk⟩ := exists_pow_modEq hpos hc (hp.modEq_mul_power hp' hα hi hi')
    exact hn k hk
  funext i
  cases hi : c i with
  | true =>
    cases hi' : c' i with
    | true => rfl
    | false => exact absurd hi' (hd ha ha' he.symm i hi)
  | false =>
    cases hi' : c' i with
    | true => exact absurd hi (hd ha' ha he i hi')
    | false => rfl

/-- Two accepted proofs with the same commitments, under any two hashes, give the discrete
logarithm at each repetition where their challenges differ. So without one, a prover whose
commitments are fixed can answer one challenge vector at most. -/
theorem special_soundness (s : Statement limbs) :
    (∀ (digest digest' : Xof) (proof proof' : Proof limbs),
      proof.commitments = proof'.commitments →
      proof.verify digest s = true → proof'.verify digest' s = true →
      ∀ i, s.challengeBit digest proof.commitments i = true →
        s.challengeBit digest' proof'.commitments i = false →
        s.base.val ^ (proof.response i).val ≡
            s.base.val ^ (proof'.response i).val * s.power.val [MOD s.modulus.val] ∧
          ∀ hc : s.base.val.Coprime s.modulus.val,
            (s.power.val : ZMod s.modulus.val) =
              (ZMod.unitOfCoprime s.base.val hc ^
                (((proof.response i).val : ℤ) - (proof'.response i).val) :
                  (ZMod s.modulus.val)ˣ)) ∧
    (s.base.val.Coprime s.modulus.val →
      (∀ k : ℕ, ¬ s.base.val ^ k ≡ s.power.val [MOD s.modulus.val]) →
      ∀ commitments, {c | s.Answerable commitments c}.encard ≤ 1) := by
  constructor
  · intro digest digest' proof proof' hα hv hv' i hi hi'
    have h := (Proof.verify_eq_true_iff.mp hv).modEq_mul_power (Proof.verify_eq_true_iff.mp hv')
      hα hi hi'
    exact ⟨h, fun hc => eq_unit_zpow_of_modEq hc h⟩
  · intro hc hn commitments
    apply Set.encard_le_one_iff.mpr
    intro c c' h h'
    exact Statement.Answerable.unique hc hn h h'

theorem two_pow_mod_seven_ne_three (k : ℕ) : ¬ 2 ^ k ≡ 3 [MOD 7] := by
  have h : 2 ^ k % 7 = 1 ∨ 2 ^ k % 7 = 2 ∨ 2 ^ k % 7 = 4 := by
    induction k with
    | zero => decide
    | succ k ih => omega
  rw [Nat.ModEq]
  omega

/-- Commitments to one with the responses two and zero give the logarithm of four. Three has
none. -/
theorem special_soundness_modSeven :
    ((4 : ℕ) : ZMod 7) =
        (ZMod.unitOfCoprime 2 (by decide) ^ (((2 : ℕ) : ℤ) - (0 : ℕ)) : (ZMod 7)ˣ) ∧
      {c | (Statement.modSeven ⟨3, by decide⟩).Answerable
        (List.replicate iterations ⟨1, by decide⟩) c}.encard ≤ 1 := by
  refine ⟨?_, (special_soundness (.modSeven ⟨3, by decide⟩)).2 (by decide)
    two_pow_mod_seven_ne_three _⟩
  exact ((special_soundness (.modSeven ⟨4, by decide⟩)).1
    (Xof.constant fun _ => true) (Xof.constant fun _ => false)
    (.uniform ⟨1, by decide⟩ ⟨2, by decide⟩) (.uniform ⟨1, by decide⟩ ⟨0, by decide⟩)
    rfl (by decide +kernel) (by decide +kernel) ⟨0, by decide⟩ (by decide +kernel)
    (by decide +kernel)).2
    (by decide)

end DlogProof
