import DlogProof.Entropy.Script
import DlogProof.Proofs.Prover

namespace DlogProof

variable {limbs : Nat}

/-- Exponents count modulo any `m` whose power of the base is one. -/
theorem pow_mod_modEq {b m n : ℕ} (h : b ^ m ≡ 1 [MOD n]) (e : ℕ) :
    b ^ (e % m) ≡ b ^ e [MOD n] := by
  calc b ^ (e % m)
      = 1 ^ (e / m) * b ^ (e % m) := by rw [one_pow, one_mul]
    _ ≡ (b ^ m) ^ (e / m) * b ^ (e % m) [MOD n] := (h.symm.pow _).mul_right _
    _ = b ^ e := by rw [← pow_mul, ← pow_add, Nat.div_add_mod]

theorem coprime_of_pow_modEq_one {b m n : ℕ} (hm : 0 < m) (h : b ^ m ≡ 1 [MOD n]) :
    b.Coprime n := by
  apply (Nat.coprime_pow_left_iff hm b n).mp
  rw [Nat.Coprime, h.gcd_eq, Nat.gcd_one_left]

theorem pow_mod_pos {b n : ℕ} (hc : b.Coprime n) (hn : 1 < n) (e : ℕ) : 0 < b ^ e % n := by
  apply Nat.pos_of_ne_zero
  intro h
  have hd : n ∣ b ^ e := Nat.dvd_of_mod_eq_zero h
  have h1 : n = 1 := (hc.pow_left e).symm.eq_one_of_dvd hd
  omega

namespace Prover

variable {prover : Prover limbs} {digest : Xof} {s : Statement limbs} {w : Witness limbs}
  {nonce : Fin iterations → Uint limbs} {proof : Proof limbs}

/-- A response answers with the nonce, and with the whole exponent if the bit is set. That the
exponent and the sum were reduced makes no difference. -/
theorem Made.response_modEq (hm : prover.Made digest s nonce proof) (hk : prover.Checked s w)
    (ho : s.base.val ^ prover.order.val ≡ 1 [MOD s.modulus.val]) (i : Fin iterations) :
    s.base.val ^ (proof.response i).val ≡ s.base.val ^ (nonce i).val *
      s.base.val ^ ((s.challengeBit digest proof.commitments i).toNat * w.exponent.val)
        [MOD s.modulus.val] := by
  rw [hm.response_val hk i, ← pow_add]
  exact pow_mod_modEq ho _

/-- The equation of a repetition that follows the protocol holds for every nonce if its bit is not
set, and otherwise says that the statement is true of the exponent. -/
theorem Made.equation_iff (hm : prover.Made digest s nonce proof) (hk : prover.Checked s w)
    (ho : s.base.val ^ (w.p.val * w.q.val) ≡ 1 [MOD s.modulus.val]) (i : Fin iterations) :
    s.base.val ^ (proof.response i).val ≡
        (proof.commitment i).val *
          s.power.val ^ (s.challengeBit digest proof.commitments i).toNat [MOD s.modulus.val] ↔
      (s.challengeBit digest proof.commitments i = true →
        s.base.val ^ w.exponent.val ≡ s.power.val [MOD s.modulus.val]) := by
  rw [← hk.order_eq] at ho
  have hl := hm.response_modEq hk ho i
  have hr : (proof.commitment i).val ≡ s.base.val ^ (nonce i).val [MOD s.modulus.val] := by
    rw [hm.commitment i]
    exact Nat.mod_modEq _ _
  -- Both sides share the factor `base ^ nonce`, which is a unit.
  have hc : s.modulus.val.gcd (s.base.val ^ (nonce i).val) = 1 :=
    ((coprime_of_pow_modEq_one hk.order_pos ho).pow_left _).symm
  have he : s.base.val ^ (proof.response i).val ≡
        (proof.commitment i).val *
          s.power.val ^ (s.challengeBit digest proof.commitments i).toNat [MOD s.modulus.val] ↔
      s.base.val ^ ((s.challengeBit digest proof.commitments i).toNat * w.exponent.val) ≡
        s.power.val ^ (s.challengeBit digest proof.commitments i).toNat [MOD s.modulus.val] := by
    constructor
    · intro h
      exact (hl.symm.trans (h.trans (hr.mul_right _))).cancel_left_of_coprime hc
    · intro h
      exact hl.trans ((h.mul_left _).trans (hr.symm.mul_right _))
  rw [he]
  cases s.challengeBit digest proof.commitments i with
  | false => simp [Nat.ModEq.refl]
  | true => simp

end Prover

/-- The outcome of verifying a proof that the prover made, whether the statement is true or not. -/
theorem verify_prove_iff {σ : Type} [EntropySource σ] {digest : Xof} {fuel : Nat}
    {s : Statement limbs} {w : Witness limbs} {proof : Proof limbs} {t t' : σ}
    (hbase : 0 < s.base.val ∧ s.base.val < s.modulus.val)
    (hpower : 0 < s.power.val ∧ s.power.val < s.modulus.val)
    (horder : s.base.val ^ (w.p.val * w.q.val) ≡ 1 [MOD s.modulus.val])
    (hrun : prove digest fuel s w t = (.ok proof, t')) :
    proof.verify digest s = true ↔
      s.power.val = s.base.val ^ w.exponent.val % s.modulus.val ∨
        ∀ i, s.challengeBit digest proof.commitments i = false := by
  obtain ⟨prover, nonce, hcheck, -, -, hmade⟩ := prove_eq_ok hrun
  have hiff := hmade.equation_iff hcheck horder
  have htrue : s.base.val ^ w.exponent.val ≡ s.power.val [MOD s.modulus.val] ↔
      s.power.val = s.base.val ^ w.exponent.val % s.modulus.val := by
    rw [Nat.ModEq, Nat.mod_eq_of_lt hpower.2, eq_comm]
  rw [Proof.verify_eq_true_iff, ← htrue]
  constructor
  · intro ha
    by_cases hz : ∀ i, s.challengeBit digest proof.commitments i = false
    · exact Or.inr hz
    · obtain ⟨i, hi⟩ := not_forall.mp hz
      exact Or.inl ((hiff i).mp (ha.equation i) (Bool.eq_true_of_not_eq_false hi))
  · intro h
    have hc := coprime_of_pow_modEq_one hcheck.order_pos (hcheck.order_eq ▸ horder)
    refine ⟨hcheck.modulus_eq ▸ prover.modulus.odd, hbase, hpower, fun i => ?_, fun i => ?_⟩
    · rw [hmade.commitment i]
      exact ⟨pow_mod_pos hc (by omega) _, Nat.mod_lt _ (by omega)⟩
    · apply (hiff i).mpr
      intro hi
      rcases h with h | h
      · exact h
      · rw [h i] at hi
        cases hi

/-- A run for the false statement that four is the first power of two modulo seven. The source's
first byte is rejected, as three is not below the order. -/
theorem verify_prove_iff_modSeven :
    ∃ (proof : Proof 1) (t' : Script),
      prove (Xof.constant fun _ => true) 2 (.modSeven ⟨4, by decide⟩)
          ⟨⟨1, by decide⟩, ⟨3, by decide⟩, ⟨1, by decide⟩⟩
          (Script.ofBytes (3 :: List.replicate 128 2) none) = (.ok proof, t') ∧
        (proof.verify (Xof.constant fun _ => true) (.modSeven ⟨4, by decide⟩) = true ↔
          4 = 2 ^ 1 % 7 ∨
            ∀ i, (Statement.modSeven ⟨4, by decide⟩).challengeBit (Xof.constant fun _ => true)
              proof.commitments i = false) := by
  rcases hrun : prove (Xof.constant fun _ => true) 2 (.modSeven ⟨4, by decide⟩)
      ⟨⟨1, by decide⟩, ⟨3, by decide⟩, ⟨1, by decide⟩⟩
      (Script.ofBytes (3 :: List.replicate 128 2) none) with ⟨r, t'⟩
  have hr : r = .ok (.uniform ⟨4, by decide⟩ ⟨0, by decide⟩) :=
    (congrArg Prod.fst hrun).symm.trans (by decide +kernel)
  subst hr
  exact ⟨_, t', rfl, verify_prove_iff (by decide) (by decide) (by decide) hrun⟩

end DlogProof
