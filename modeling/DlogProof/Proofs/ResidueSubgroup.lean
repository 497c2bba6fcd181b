import DlogProof.Proofs.HonestRound
import Mathlib.Data.Nat.Squarefree

namespace DlogProof

/-- A power has no common factor with a squarefree number that its base does not have. -/
theorem gcd_pow_of_squarefree {n k : ℕ} (hn : Squarefree n) (hk : 0 < k) (a : ℕ) :
    (a ^ k).gcd n = a.gcd n := by
  apply Nat.dvd_antisymm
  · have hd : Squarefree ((a ^ k).gcd n) := hn.squarefree_of_dvd (Nat.gcd_dvd_right _ _)
    have ha : (a ^ k).gcd n ∣ a := (hd.dvd_pow_iff_dvd hk.ne').mp (Nat.gcd_dvd_left _ _)
    exact Nat.dvd_gcd ha (Nat.gcd_dvd_right _ _)
  · exact Nat.gcd_dvd_gcd_of_dvd_left n (dvd_pow_self a hk.ne')

theorem gcd_square_mod {n : ℕ} (hn : Squarefree n) (r : ℕ) : (r * r % n).gcd n = r.gcd n := by
  rw [(Nat.mod_modEq _ _).gcd_eq, ← pow_two, gcd_pow_of_squarefree hn Nat.two_pos]

theorem squarefree_mul_of_primes {p q : ℕ} (hp : p.Prime) (hq : q.Prime) (hne : p ≠ q) :
    Squarefree (p * q) :=
  (Nat.squarefree_mul ((Nat.coprime_primes hp hq).mpr hne)).mpr
    ⟨hp.prime.squarefree, hq.prime.squarefree⟩

/-- What a residue can have in common with a product of two primes is one of the primes. -/
theorem gcd_eq_prime_of_not_coprime {p q r : ℕ} (hp : p.Prime) (hq : q.Prime) (hne : p ≠ q)
    (hr : 0 < r ∧ r < p * q) (hc : ¬ r.Coprime (p * q)) :
    r.gcd (p * q) = p ∨ r.gcd (p * q) = q := by
  have hmul := ((Nat.coprime_primes hp hq).mpr hne).gcd_mul r
  rw [Nat.Coprime, hmul] at hc
  rw [hmul]
  rcases (Nat.dvd_prime hp).mp (r.gcd_dvd_right p) with h1 | hP <;>
    rcases (Nat.dvd_prime hq).mp (r.gcd_dvd_right q) with h1' | hQ
  · rw [h1, h1'] at hc
    exact absurd rfl hc
  · rw [h1, hQ, one_mul]
    exact Or.inr rfl
  · rw [hP, h1', mul_one]
    exact Or.inl rfl
  -- A residue that both primes divide is zero.
  · rw [hP, hQ] at hmul
    have hdvd : p * q ∣ r := hmul ▸ Nat.gcd_dvd_left r (p * q)
    exact absurd (Nat.le_of_dvd hr.1 hdvd) (by omega)

theorem HasPeriod.pow_modEq_one_iff {b m n : ℕ} (h : HasPeriod b m n) (hm : 0 < m) :
    b ^ m ≡ 1 [MOD n] ↔ b.Coprime n := by
  have hiff := h.pow_mod_modEq_iff hm hm
  rw [Nat.mod_self, pow_zero] at hiff
  exact ⟨fun hone => (hiff.mp hone.symm).resolve_right (Nat.lt_irrefl 0),
    fun hc => (hiff.mpr (Or.inl hc)).symm⟩

namespace LocalParams

variable {P : Params}

/-- The loop for `h1` stops at every residue that shares a factor with the modulus. -/
theorem generatorOf?_of_not_coprime {n : OddModulus P.limbs} {r : P.Integer}
    (hn : Squarefree n.modulus.val) (hr : 0 < r.val ∧ r.val < n.modulus.val)
    (hc : ¬ r.val.Coprime n.modulus.val) : generatorOf? n r = some (n.mul r r) := by
  have hgcd := gcd_square_mod hn r.val
  refine generatorOf?_eq_some_iff.mpr ⟨rfl, ?_⟩
  rw [OddModulus.mul_val]
  by_contra hle
  rcases Nat.le_one_iff_eq_zero_or_eq_one.mp (Nat.not_lt.mp hle) with hz | ho
  · rw [hz, Nat.gcd_zero_left] at hgcd
    have hdvd : n.modulus.val ∣ r.val := hgcd ▸ Nat.gcd_dvd_left _ _
    exact absurd (Nat.le_of_dvd hr.1 hdvd) (by omega)
  · rw [ho, Nat.gcd_one_left] at hgcd
    exact hc hgcd.symm

namespace Picked

variable {l : LocalParams P} {safeP safeQ r : P.Integer} {n order : OddModulus P.limbs}

theorem modulus_squarefree (h : l.Picked safeP safeQ r n order) (hP : safeP.val.Prime)
    (hQ : safeQ.val.Prime) (hne : safeP ≠ safeQ) : Squarefree l.modulus.val := by
  rw [h.modulus_eq, h.product]
  exact squarefree_mul_of_primes hP hQ fun he => hne (Uint.ext_val he)

theorem gcd_h1 (h : l.Picked safeP safeQ r n order) (hn : Squarefree l.modulus.val) :
    l.h1.val.gcd l.modulus.val = r.val.gcd l.modulus.val := by
  rw [h.h1_eq_square, gcd_square_mod hn]

theorem gcd_h2 (h : l.Picked safeP safeQ r n order) (hbits : l.modulus.bits = P.modulusBits)
    (hn : Squarefree l.modulus.val) :
    l.h2.val.gcd l.modulus.val = r.val.gcd l.modulus.val := by
  rw [h.h2_val hbits, (Nat.mod_modEq _ _).gcd_eq, gcd_pow_of_squarefree hn h.alpha_range.1,
    h.gcd_h1 hn]

theorem h2_period (h : l.Picked safeP safeQ r n order) (hbits : l.modulus.bits = P.modulusBits)
    (hperiod : HasPeriod l.h1.val (l.p.val * l.q.val) l.modulus.val) :
    HasPeriod l.h2.val (l.p.val * l.q.val) l.modulus.val := by
  rw [h.h2_val hbits]
  exact (hperiod.pow _).mod

end Picked

/-- When the generators lie in the subgroup of order `p * q`. What they share with the modulus is
what the drawn root shares with it, and they lie in the subgroup exactly if that is nothing. It may
be one of the two primes: the loop for `h1` rejects no such root. -/
theorem subgroup_iff_root_coprime {σ : Type} [EntropySource σ] {fuel : ℕ}
    {drawPrime : Draw σ GenerationError P.Integer} {l : LocalParams P} {s s' : σ}
    (hprime : ∀ t v t', drawPrime t = (.ok v, t') → v.val.Prime)
    (h : randomWith fuel drawPrime s = (.ok l, s')) :
    (∃ r : P.Integer, (0 < r.val ∧ r.val < l.modulus.val) ∧
      l.h1.val = r.val * r.val % l.modulus.val ∧
      (¬ r.val.Coprime l.modulus.val →
        r.val.gcd l.modulus.val = 2 * l.p.val + 1 ∨ r.val.gcd l.modulus.val = 2 * l.q.val + 1) ∧
      ∀ g ∈ [l.h1, l.h2], g.val.gcd l.modulus.val = r.val.gcd l.modulus.val ∧
        (g.val ^ (l.p.val * l.q.val) ≡ 1 [MOD l.modulus.val] ↔ r.val.Coprime l.modulus.val)) ∧
    ∀ n : OddModulus P.limbs, n.modulus = l.modulus → ∀ r : P.Integer,
      0 < r.val ∧ r.val < l.modulus.val → ¬ r.val.Coprime l.modulus.val →
        generatorOf? n r = some (n.mul r r) := by
  obtain ⟨safeP, safeQ, r, n, order, ⟨tP, tP', hP⟩, ⟨tQ, tQ', hQ⟩, hne, hbits, hpicked⟩ :=
    randomWith_eq_ok h
  have hprimeP := hprime _ _ _ hP
  have hprimeQ := hprime _ _ _ hQ
  have hsquarefree := hpicked.modulus_squarefree hprimeP hprimeQ hne
  have hperiod := hpicked.h1_period hprimeP hprimeQ hne
  have hperiod' := hpicked.h2_period hbits hperiod
  have hrange : 0 < r.val ∧ r.val < l.modulus.val := hpicked.modulus_eq ▸ hpicked.root_range
  refine ⟨⟨r, hrange, hpicked.h1_eq_square, ?_, ?_⟩, ?_⟩
  · intro hc
    rw [hpicked.modulus_val, ← hpicked.safeP_val, ← hpicked.safeQ_val] at hrange hc ⊢
    exact gcd_eq_prime_of_not_coprime hprimeP hprimeQ (fun he => hne (Uint.ext_val he)) hrange hc
  · rw [List.forall_mem_cons, List.forall_mem_singleton,
      hperiod.pow_modEq_one_iff hpicked.order_pos, hperiod'.pow_modEq_one_iff hpicked.order_pos]
    have hgcd := hpicked.gcd_h1 hsquarefree
    have hgcd' := hpicked.gcd_h2 hbits hsquarefree
    exact ⟨⟨hgcd, by rw [Nat.Coprime, hgcd]⟩, ⟨hgcd', by rw [Nat.Coprime, hgcd']⟩⟩
  · intro n' hn' r' hr' hc'
    rw [← hn'] at hsquarefree hr' hc'
    exact generatorOf?_of_not_coprime hsquarefree hr' hc'

/-- A run whose root is one of the primes gives generators outside the subgroup. -/
theorem subgroup_iff_root_coprime_eightBit :
    ∃ s', LocalParams.random 1 Script.eightBitParams = (.ok .eightBit, s') ∧
      ∀ g ∈ [LocalParams.eightBit.h1, LocalParams.eightBit.h2],
        ¬ g.val.Coprime LocalParams.eightBit.modulus.val ∧
        ¬ g.val ^ (LocalParams.eightBit.p.val * LocalParams.eightBit.q.val) ≡ 1
          [MOD LocalParams.eightBit.modulus.val] := by
  obtain ⟨s', hrun⟩ := LocalParams.random_eightBit
  have hprime : ∀ t v t', (drawSafePrime 1 8 1 : Draw Script GenerationError _) t = (.ok v, t') →
      v.val.Prime := fun t v t' ht => (drawSafePrime_prime (by decide) (by decide) ht).1
  obtain ⟨⟨r, -, -, -, hgenerators⟩, -⟩ := subgroup_iff_root_coprime hprime hrun
  have hroot : ¬ r.val.Coprime LocalParams.eightBit.modulus.val := by
    rw [Nat.Coprime, ← (hgenerators _ List.mem_cons_self).1]
    decide +kernel
  refine ⟨s', hrun, fun g hg => ?_⟩
  obtain ⟨hgcd, hone⟩ := hgenerators g hg
  exact ⟨fun hc => hroot (hgcd.symm.trans hc), fun ho => hroot (hone.mp ho)⟩

end LocalParams

end DlogProof
