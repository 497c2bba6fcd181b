import DlogProof.Proofs.HonestRound

namespace DlogProof

/-- Whether a number and its half, rounded down, are both primes. -/
def SafePrime (n : ℕ) : Prop := n.Prime ∧ (n / 2).Prime

namespace LocalParams

variable {P : Params}

/-- The relations between the values of a party's parameters. -/
structure Valid (l : LocalParams P) : Prop where
  p_prime : l.p.val.Prime
  q_prime : l.q.val.Prime
  p_ne_q : l.p ≠ l.q
  modulus_val : l.modulus.val = (2 * l.p.val + 1) * (2 * l.q.val + 1)
  modulus_bits : l.modulus.bits = P.modulusBits
  h1_square : IsSquare (l.h1.val : ZMod l.modulus.val)
  h1_range : 1 < l.h1.val ∧ l.h1.val < l.modulus.val
  h2_range : 1 < l.h2.val ∧ l.h2.val < l.modulus.val
  h2_ne_h1 : l.h2 ≠ l.h1
  alpha_range : 1 ≤ l.alpha.val ∧ l.alpha.val < l.p.val * l.q.val
  beta_range : 1 ≤ l.beta.val ∧ l.beta.val < l.p.val * l.q.val
  alpha_mul_beta : l.alpha.val * l.beta.val ≡ 1 [MOD l.p.val * l.q.val]
  h2_val : l.h2.val = l.h1.val ^ l.alpha.val % l.modulus.val
  h1_val : l.h1.val = l.h2.val ^ l.beta.val % l.modulus.val

namespace Picked

variable {l : LocalParams P} {safeP safeQ r : P.Integer} {n order : OddModulus P.limbs}

theorem p_ne_q (h : l.Picked safeP safeQ r n order) (hne : safeP ≠ safeQ) : l.p ≠ l.q := by
  intro he
  apply hne
  apply Uint.ext_val
  rw [h.safeP_val, h.safeQ_val, he]

theorem h1_isSquare (h : l.Picked safeP safeQ r n order) :
    IsSquare (l.h1.val : ZMod l.modulus.val) := by
  refine ⟨(r.val : ZMod l.modulus.val), ?_⟩
  rw [h.h1_eq_square, ZMod.natCast_mod, Nat.cast_mul]

/-- If `h2` were zero or one, so would be its power `h1`. -/
theorem one_lt_h2 (h : l.Picked safeP safeQ r n order) (hbits : l.modulus.bits = P.modulusBits)
    (hperiod : HasPeriod l.h1.val (l.p.val * l.q.val) l.modulus.val) : 1 < l.h2.val := by
  by_contra hle
  have hpow : l.h1.val ≤ 1 :=
    calc l.h1.val
        = l.h2.val ^ l.beta.val % l.modulus.val := h.h1_val hbits hperiod
      _ ≤ l.h2.val ^ l.beta.val := Nat.mod_le _ _
      _ ≤ 1 ^ l.beta.val := Nat.pow_le_pow_left (by omega) _
      _ = 1 := one_pow _
  exact absurd h.one_lt_h1 (by omega)

theorem h2_lt (h : l.Picked safeP safeQ r n order) (hbits : l.modulus.bits = P.modulusBits) :
    l.h2.val < l.modulus.val := by
  rw [h.h2_val hbits]
  exact Nat.mod_lt _ (Nat.zero_lt_of_lt h.h1_range.2)

end Picked

/-- Every run that gives parameters gives valid ones, whatever the source of the bytes, also where
the root of `h1` shares a factor with the modulus. Of the primes that are drawn, only that they are
safe is needed: their sizes and their product are checked before they are used. -/
theorem valid_of_randomWith {σ : Type} [EntropySource σ] {fuel : ℕ}
    {drawPrime : Draw σ GenerationError P.Integer} {l : LocalParams P} {s s' : σ}
    (hsafe : ∀ t v t', drawPrime t = (.ok v, t') → SafePrime v.val)
    (h : randomWith fuel drawPrime s = (.ok l, s')) : l.Valid := by
  obtain ⟨safeP, safeQ, r, n, order, ⟨tP, tP', hP⟩, ⟨tQ, tQ', hQ⟩, hne, hbits, hpicked⟩ :=
    randomWith_eq_ok h
  obtain ⟨hprimeP, hhalfP⟩ := hsafe _ _ _ hP
  obtain ⟨hprimeQ, hhalfQ⟩ := hsafe _ _ _ hQ
  have hperiod := hpicked.h1_period hprimeP hprimeQ hne
  exact {
    p_prime := hpicked.p_eq ▸ hhalfP
    q_prime := hpicked.q_eq ▸ hhalfQ
    p_ne_q := hpicked.p_ne_q hne
    modulus_val := hpicked.modulus_val
    modulus_bits := hbits
    h1_square := hpicked.h1_isSquare
    h1_range := ⟨hpicked.one_lt_h1, hpicked.h1_range.2⟩
    h2_range := ⟨hpicked.one_lt_h2 hbits hperiod, hpicked.h2_lt hbits⟩
    h2_ne_h1 := (partnerOf?_eq_some_iff.mp hpicked.partner).2.2
    alpha_range := hpicked.alpha_range
    beta_range := hpicked.beta_range
    alpha_mul_beta := hpicked.alpha_mul_beta
    h2_val := hpicked.h2_val hbits
    h1_val := hpicked.h1_val hbits hperiod }

/-- A run whose root is divisible by one of the two primes. -/
theorem valid_of_randomWith_eightBit :
    ∃ s', LocalParams.random 1 Script.eightBitParams = (.ok .eightBit, s') ∧
      ¬ LocalParams.eightBit.h1.val.Coprime LocalParams.eightBit.modulus.val ∧
      LocalParams.eightBit.Valid := by
  obtain ⟨s', hrun⟩ := LocalParams.random_eightBit
  have hsafe : ∀ t v t', (drawSafePrime 1 8 1 : Draw Script GenerationError _) t = (.ok v, t') →
      SafePrime v.val := fun t v t' => drawSafePrime_prime (by decide) (by decide)
  exact ⟨s', hrun, by decide +kernel, valid_of_randomWith hsafe hrun⟩

end LocalParams

end DlogProof
