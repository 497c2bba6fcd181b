import DlogProof.Proofs.Completeness
import Mathlib.FieldTheory.Finite.Basic

namespace DlogProof

/-- Whether the powers of `b` modulo `n` repeat after `m` steps, from the first power on. Unlike
with an order, no power of `b` needs to be one, so `b` may share a factor with `n`. -/
def HasPeriod (b m n : ℕ) : Prop := b ^ (m + 1) ≡ b [MOD n]

namespace HasPeriod

variable {b m n e : ℕ}

theorem pow_add_mul (h : HasPeriod b m n) (he : 0 < e) (k : ℕ) :
    b ^ (e + m * k) ≡ b ^ e [MOD n] := by
  induction k with
  | zero => exact Nat.ModEq.refl _
  | succ k ih =>
    have hstep : e + m * (k + 1) = (e - 1 + m * k) + (m + 1) := by
      rw [Nat.mul_succ]
      omega
    have hprev : e + m * k = (e - 1 + m * k) + 1 := by omega
    calc b ^ (e + m * (k + 1))
        = b ^ (e - 1 + m * k) * b ^ (m + 1) := by rw [hstep, pow_add]
      _ ≡ b ^ (e - 1 + m * k) * b [MOD n] := h.mul_left _
      _ = b ^ (e + m * k) := by rw [hprev, pow_succ]
      _ ≡ b ^ e [MOD n] := ih

/-- Powers with positive exponents depend on the exponent modulo the period only. -/
theorem pow_modEq (h : HasPeriod b m n) {e' : ℕ} (he : 0 < e) (he' : 0 < e')
    (hm : e ≡ e' [MOD m]) : b ^ e ≡ b ^ e' [MOD n] := by
  rcases le_total e e' with hle | hle
  · obtain ⟨k, hk⟩ := (Nat.modEq_iff_dvd' hle).mp hm
    rw [show e' = e + m * k by omega]
    exact (h.pow_add_mul he k).symm
  · obtain ⟨k, hk⟩ := (Nat.modEq_iff_dvd' hle).mp hm.symm
    rw [show e = e' + m * k by omega]
    exact h.pow_add_mul he' k

theorem pow_mod_pos (h : HasPeriod b m n) (hm : 0 < m) (hb : 0 < b % n) (e : ℕ) :
    0 < b ^ e % n := by
  apply Nat.pos_of_ne_zero
  intro hz
  -- From a power of zero on all powers are zero, and one of those is the first power again.
  have hle : e ≤ 1 + m * e := (Nat.le_mul_of_pos_left e hm).trans (Nat.le_add_left _ _)
  have hdvd : n ∣ b ^ (1 + m * e) := (Nat.dvd_of_mod_eq_zero hz).trans (pow_dvd_pow b hle)
  have hzero : b % n = 0 := by
    rw [← pow_one b, ← h.pow_add_mul Nat.one_pos e]
    exact Nat.mod_eq_zero_of_dvd hdvd
  omega

/-- A positive exponent may be reduced modulo the period, except to zero if no power of `b` is
one. -/
theorem pow_mod_modEq_iff (h : HasPeriod b m n) (hm : 0 < m) (he : 0 < e) :
    b ^ (e % m) ≡ b ^ e [MOD n] ↔ b.Coprime n ∨ 0 < e % m := by
  rcases Nat.eq_zero_or_pos (e % m) with hz | hpos
  -- The reduced exponent zero stands for the power `m`, which is one only if `b` can be cancelled.
  · have hem : b ^ e ≡ b ^ m [MOD n] :=
      h.pow_modEq he hm (by rw [Nat.ModEq, hz, Nat.mod_self])
    rw [hz, pow_zero]
    constructor
    · intro hone
      exact Or.inl (coprime_of_pow_modEq_one he hone.symm)
    · rintro (hc | hf)
      · have hone : b * b ^ m ≡ b * 1 [MOD n] := by
          rw [← pow_succ', mul_one]
          exact h
        exact (hem.trans (hone.cancel_left_of_coprime hc.symm)).symm
      · omega
  · exact iff_of_true (h.pow_modEq hpos he (Nat.mod_modEq e m)) (Or.inr hpos)

theorem mod (h : HasPeriod b m n) : HasPeriod (b % n) m n := by
  have hb : b % n ≡ b [MOD n] := Nat.mod_modEq b n
  exact (hb.pow _).trans (h.trans hb.symm)

theorem pow (h : HasPeriod b m n) (k : ℕ) : HasPeriod (b ^ k) m n := by
  rw [HasPeriod, ← pow_mul, mul_comm, pow_mul]
  exact Nat.ModEq.pow k h

end HasPeriod

/-- Modulo a prime, the powers of a square repeat after any multiple of half the order. If the prime
divides the square, they are all zero. -/
theorem square_period_prime {p r : ℕ} (hp : p.Prime) (hodd : p % 2 = 1) (k : ℕ) :
    HasPeriod (r * r) (p / 2 * k) p := by
  by_cases hr : p ∣ r
  · have hz : r * r ≡ 0 [MOD p] := Nat.modEq_zero_iff_dvd.mpr (hr.mul_right r)
    calc (r * r) ^ (p / 2 * k + 1)
        = (r * r) ^ (p / 2 * k) * (r * r) := pow_succ _ _
      _ ≡ (r * r) ^ (p / 2 * k) * 0 [MOD p] := hz.mul_left _
      _ = 0 := mul_zero _
      _ ≡ r * r [MOD p] := hz.symm
  · have hfermat : r ^ (p - 1) ≡ 1 [MOD p] := by
      rw [← Nat.totient_prime hp]
      exact Nat.ModEq.pow_totient ((hp.coprime_iff_not_dvd.mpr hr).symm)
    have hexp : 2 * (p / 2 * k) = (p - 1) * k := by
      rw [← mul_assoc, show 2 * (p / 2) = p - 1 by omega]
    calc (r * r) ^ (p / 2 * k + 1)
        = (r ^ (p - 1)) ^ k * (r * r) := by
          rw [pow_succ, ← pow_two, ← pow_mul, hexp, pow_mul]
      _ ≡ 1 ^ k * (r * r) [MOD p] := (hfermat.pow k).mul_right _
      _ = r * r := by rw [one_pow, one_mul]

/-- The powers of a square repeat modulo a product of two primes, also of a square that is divisible
by one of them. -/
theorem square_period {p q r : ℕ} (hp : p.Prime) (hq : q.Prime) (hne : p ≠ q)
    (hodd : p % 2 = 1) (hodd' : q % 2 = 1) :
    HasPeriod (r * r) (p / 2 * (q / 2)) (p * q) := by
  refine (Nat.modEq_and_modEq_iff_modEq_mul ((Nat.coprime_primes hp hq).mpr hne)).mp ⟨?_, ?_⟩
  · exact square_period_prime hp hodd _
  · rw [mul_comm (p / 2)]
    exact square_period_prime hq hodd' _

variable {limbs : Nat}

namespace Prover

variable {prover : Prover limbs} {digest : Xof} {s : Statement limbs} {w : Witness limbs}
  {nonce : Fin iterations → Uint limbs} {proof : Proof limbs}

/-- A repetition of a true statement fails only if its response is zero. -/
theorem Made.equation_iff_of_period (hm : prover.Made digest s nonce proof)
    (hk : prover.Checked s w) (hnonce : ∀ i, 0 < (nonce i).val)
    (hpower : s.power.val = s.base.val ^ w.exponent.val % s.modulus.val)
    (hperiod : HasPeriod s.base.val (w.p.val * w.q.val) s.modulus.val) (i : Fin iterations) :
    s.base.val ^ (proof.response i).val ≡
        (proof.commitment i).val *
          s.power.val ^ (s.challengeBit digest proof.commitments i).toNat [MOD s.modulus.val] ↔
      s.base.val.Coprime s.modulus.val ∨ 0 < (proof.response i).val := by
  rw [← hk.order_eq] at hperiod
  have hright : (proof.commitment i).val *
        s.power.val ^ (s.challengeBit digest proof.commitments i).toNat ≡
      s.base.val ^ ((nonce i).val +
        (s.challengeBit digest proof.commitments i).toNat * w.exponent.val)
          [MOD s.modulus.val] := by
    rw [hm.commitment i, hpower, pow_add, mul_comm (Bool.toNat _), pow_mul]
    exact (Nat.mod_modEq _ _).mul ((Nat.mod_modEq _ _).pow _)
  rw [hm.response_val hk i, ← hperiod.pow_mod_modEq_iff hk.order_pos
    (Nat.add_pos_left (hnonce i) _)]
  exact ⟨fun h => h.trans hright, fun h => h.trans hright.symm⟩

end Prover

/-- The outcome of verifying an honest proof to a base whose powers repeat. The proof fails exactly
if the base shares a factor with the modulus and a response came out as zero. -/
theorem verify_prove_iff_of_period {σ : Type} [EntropySource σ] {digest : Xof} {fuel : Nat}
    {s : Statement limbs} {w : Witness limbs} {proof : Proof limbs} {t t' : σ}
    (hbase : 0 < s.base.val ∧ s.base.val < s.modulus.val)
    (hpower : s.power.val = s.base.val ^ w.exponent.val % s.modulus.val)
    (hperiod : HasPeriod s.base.val (w.p.val * w.q.val) s.modulus.val)
    (hrun : prove digest fuel s w t = (.ok proof, t')) :
    proof.verify digest s = true ↔
      s.base.val.Coprime s.modulus.val ∨ ∀ i, 0 < (proof.response i).val := by
  obtain ⟨prover, nonce, hcheck, -, hnonce, hmade⟩ := prove_eq_ok hrun
  have hiff := hmade.equation_iff_of_period hcheck (fun i => (hnonce i).1) hpower hperiod
  have hpos : ∀ e, 0 < s.base.val ^ e % s.modulus.val :=
    hperiod.pow_mod_pos (hcheck.order_eq ▸ hcheck.order_pos)
      (by rw [Nat.mod_eq_of_lt hbase.2]; exact hbase.1)
  have hlt : ∀ e, s.base.val ^ e % s.modulus.val < s.modulus.val :=
    fun e => Nat.mod_lt _ (by omega)
  rw [Proof.verify_eq_true_iff, ← forall_or_left, ← forall_congr' hiff]
  constructor
  · intro ha
    exact ha.equation
  · intro hequation
    refine ⟨hcheck.modulus_eq ▸ prover.modulus.odd, hbase, ?_, fun i => ?_, hequation⟩
    · rw [hpower]
      exact ⟨hpos _, hlt _⟩
    · rw [hmade.commitment i]
      exact ⟨hpos _, hlt _⟩

end DlogProof
