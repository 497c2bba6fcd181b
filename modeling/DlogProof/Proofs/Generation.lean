import DlogProof.Keygen.LocalParams
import DlogProof.Proofs.Period
import Mathlib.Data.Int.ModEq

namespace DlogProof

/-- Euclid's algorithm keeps each remainder congruent to its multiple of `a`. -/
theorem euclid_modEq {n a : ℕ} (fuel : ℕ) {r s : ℕ} {x y : ℤ} (hr : x * a ≡ r [ZMOD n])
    (hs : y * a ≡ s [ZMOD n]) :
    (euclid fuel r s x y).2 * a ≡ (euclid fuel r s x y).1 [ZMOD n] := by
  induction fuel generalizing r s x y with
  | zero => exact hr
  | succ fuel ih =>
    rw [euclid]
    split
    · exact hr
    · apply ih hs
      have hstep : (x - (r / s : ℕ) * y) * a = x * a - (r / s : ℕ) * (y * a) := by ring
      have hrem : ((r % s : ℕ) : ℤ) = r - (r / s : ℕ) * s := by
        rw [eq_sub_iff_add_eq]
        exact_mod_cast Nat.mod_add_div' r s
      rw [hstep, hrem]
      exact hr.sub (hs.mul_left _)

theorem invMod?_eq_some {n a v : ℕ} (hn : 0 < n) (h : invMod? n a = some v) :
    a * v ≡ 1 [MOD n] := by
  have hzero : (0 : ℤ) * a ≡ n [ZMOD n] := by
    rw [zero_mul]
    exact (Int.modEq_zero_iff_dvd.mpr dvd_rfl).symm
  have hone : (1 : ℤ) * a ≡ (a % n : ℕ) [ZMOD n] := by
    rw [one_mul, Int.natCast_mod]
    exact (Int.mod_modEq _ _).symm
  have hinv := euclid_modEq (a % n) hzero hone
  rw [invMod?] at h
  dsimp only at h
  split at h
  · rename_i hg
    cases h
    rw [hg] at hinv
    have hpos : (0 : ℤ) < n := by exact_mod_cast hn
    apply (Int.natCast_modEq_iff).mp
    rw [Nat.cast_mul, Int.toNat_of_nonneg (Int.emod_nonneg _ hpos.ne'), mul_comm]
    exact ((Int.mod_modEq _ _).mul_right _).trans hinv
  · cases h

/-- Euclid's algorithm ends with the greatest common divisor, as each remainder is less than the one
before. -/
theorem euclid_fst {fuel r s : ℕ} {x y : ℤ} (h : s ≤ fuel) :
    (euclid fuel r s x y).1 = r.gcd s := by
  induction fuel generalizing r s x y with
  | zero =>
    rw [Nat.le_zero.mp h, Nat.gcd_zero_right]
    rfl
  | succ fuel ih =>
    rw [euclid]
    split
    · rename_i hs
      rw [hs, Nat.gcd_zero_right]
    · rename_i hs
      have hlt : r % s < s := Nat.mod_lt r (Nat.pos_of_ne_zero hs)
      rw [ih (by omega), Nat.gcd_comm s, ← Nat.gcd_rec, Nat.gcd_comm]

theorem invMod?_isSome_iff {n a : ℕ} : (invMod? n a).isSome ↔ a.Coprime n := by
  have hgcd : (euclid (a % n) n (a % n) 0 1).1 = a.gcd n := by
    rw [euclid_fst le_rfl, Nat.gcd_comm, (Nat.mod_modEq a n).gcd_eq]
  rw [invMod?, Nat.Coprime, ← hgcd]
  dsimp only
  split <;> simp_all

namespace OddModulus

variable {limbs : Nat} {n : OddModulus limbs}

theorem inverse?_eq_some {a b : Uint limbs} (h : n.inverse? a = some b) :
    a.val * b.val ≡ 1 [MOD n.modulus.val] := by
  obtain ⟨v, hv, rfl⟩ := Option.map_eq_some_iff.mp h
  exact ((Nat.mod_modEq v _).mul_left _).trans (invMod?_eq_some n.pos hv)

theorem inverse?_isSome_iff {a : Uint limbs} :
    (n.inverse? a).isSome ↔ a.val.Coprime n.modulus.val := by
  rw [inverse?, Option.isSome_map, invMod?_isSome_iff]

theorem inverse?_lt {a b : Uint limbs} (h : n.inverse? a = some b) :
    b.val < n.modulus.val := by
  obtain ⟨v, -, rfl⟩ := Option.map_eq_some_iff.mp h
  exact Nat.mod_lt v n.pos

theorem factors_odd {a b : ℕ} (h : n.modulus.val = a * b) : a % 2 = 1 ∧ b % 2 = 1 := by
  have hodd : a * b % 2 = 1 := h ▸ n.odd
  obtain ⟨ha, hb⟩ := Nat.odd_mul.mp (Nat.odd_iff.mpr hodd)
  exact ⟨Nat.odd_iff.mp ha, Nat.odd_iff.mp hb⟩

/-- Modulo a product of two primes, the powers of a square repeat after the product of the halves
of the primes. -/
theorem mul_self_period {safeP safeQ : Uint limbs} (hP : safeP.val.Prime) (hQ : safeQ.val.Prime)
    (hne : safeP ≠ safeQ) (h : n.modulus.val = safeP.val * safeQ.val) (r : Uint limbs) :
    HasPeriod (n.mul r r).val (safeP.half.val * safeQ.half.val) n.modulus.val := by
  obtain ⟨hoddP, hoddQ⟩ := factors_odd h
  rw [mul_val, h]
  exact (square_period hP hQ (fun he => hne (Uint.ext_val he)) hoddP hoddQ).mod

end OddModulus

namespace LocalParams

variable {P : Params}

theorem modulusOf?_eq_some_iff {safeP safeQ m : P.Integer} :
    modulusOf? safeP safeQ = some m ↔
      safeP ≠ safeQ ∧ m.val = safeP.val * safeQ.val ∧ m.bits = P.modulusBits := by
  unfold modulusOf?
  by_cases h : safeP = safeQ
  · simp [h]
  · rw [if_neg h, Option.filter_eq_some_iff, Uint.checkedMul, Uint.ofNat?_eq_some_iff]
    simp [h]

theorem generatorOf?_eq_some_iff {n : OddModulus P.limbs} {r h1 : P.Integer} :
    generatorOf? n r = some h1 ↔ h1 = n.mul r r ∧ 1 < h1.val := by
  have hbits : 1 < (n.mul r r).bits ↔ 1 < (n.mul r r).val := by
    rw [← Nat.not_le, Uint.bits_le_iff, Nat.not_lt]
    exact Iff.rfl
  unfold generatorOf?
  dsimp only
  constructor
  · intro h
    split at h
    · rename_i hgt
      cases h
      exact ⟨rfl, hbits.mp hgt⟩
    · cases h
  · rintro ⟨rfl, h⟩
    exact if_pos (hbits.mpr h)

theorem partnerOf?_eq_some_iff {n order : OddModulus P.limbs} {h1 alpha beta h2 : P.Integer} :
    partnerOf? n order h1 alpha = some (beta, h2) ↔
      order.inverse? alpha = some beta ∧ h2 = n.powBounded h1 alpha P.modulusBits ∧ h2 ≠ h1 := by
  unfold partnerOf?
  cases order.inverse? alpha with
  | none => simp
  | some found =>
    dsimp only
    by_cases hp : n.powBounded h1 alpha P.modulusBits = h1
    · rw [if_pos hp]
      simp only [reduceCtorEq, false_iff]
      rintro ⟨-, rfl, hne⟩
      exact hne hp
    · rw [if_neg hp]
      simp only [Option.some.injEq, Prod.mk.injEq]
      constructor
      · rintro ⟨rfl, rfl⟩
        exact ⟨rfl, rfl, hp⟩
      · rintro ⟨rfl, rfl, -⟩
        exact ⟨rfl, rfl⟩

/-- The moduli that the generators are picked with: the product of the primes for the generators,
and that of their halves for the exponents. -/
structure Moduli (safeP safeQ : P.Integer) (n order : OddModulus P.limbs) : Prop where
  product : safeP.checkedMul safeQ = some n.modulus
  order_eq : safeP.half.wrappingMul safeQ.half = order.modulus

namespace Moduli

variable {safeP safeQ : P.Integer} {n order : OddModulus P.limbs}

theorem modulus_val (h : Moduli safeP safeQ n order) :
    n.modulus.val = safeP.val * safeQ.val := Uint.ofNat?_eq_some_iff.mp h.product

theorem half_mul_half_le (h : Moduli safeP safeQ n order) :
    safeP.half.val * safeQ.half.val ≤ n.modulus.val := by
  rw [h.modulus_val]
  exact Nat.mul_le_mul (Nat.div_le_self _ _) (Nat.div_le_self _ _)

/-- The product of the halves does not wrap around. -/
theorem order_val (h : Moduli safeP safeQ n order) :
    order.modulus.val = safeP.half.val * safeQ.half.val := by
  rw [← h.order_eq]
  exact Nat.mod_eq_of_lt (h.half_mul_half_le.trans_lt n.modulus.val_lt)

/-- The exponents below the order fit into as many bits as the modulus. -/
theorem order_lt (h : Moduli safeP safeQ n order) {bits : ℕ} (hbits : n.modulus.bits ≤ bits) :
    order.modulus.val < 2 ^ bits := by
  rw [h.order_val]
  exact h.half_mul_half_le.trans_lt (Uint.bits_le_iff.mp hbits)

end Moduli

/-- What the generation of parameters from two primes has drawn and checked: `h1` is the square of
`r`, and `alpha` has an inverse modulo the order of the squares. -/
structure Picked (l : LocalParams P) (safeP safeQ r : P.Integer) (n order : OddModulus P.limbs) :
    Prop where
  modulus_eq : l.modulus = n.modulus
  product : n.modulus.val = safeP.val * safeQ.val
  p_eq : l.p = safeP.half
  q_eq : l.q = safeQ.half
  order_eq : order.modulus = l.p.wrappingMul l.q
  root_range : 0 < r.val ∧ r.val < n.modulus.val
  generator : generatorOf? n r = some l.h1
  exponent_range : 0 < l.alpha.val ∧ l.alpha.val < order.modulus.val
  partner : partnerOf? n order l.h1 l.alpha = some (l.beta, l.h2)

section Runs

variable {σ : Type} {fuel : ℕ} {s s' : σ}

theorem drawPrimes_eq_ok {drawPrime : Draw σ GenerationError P.Integer} {safeP safeQ : P.Integer}
    (h : drawPrimes fuel drawPrime s = (.ok (safeP, safeQ), s')) :
    (∃ t t', drawPrime t = (.ok safeP, t')) ∧ (∃ t t', drawPrime t = (.ok safeQ, t')) ∧
      ∃ m, modulusOf? safeP safeQ = some m := by
  obtain ⟨t, ht⟩ := Draw.untilSome_eq_ok h
  obtain ⟨foundP, t', hP, hk⟩ := Draw.bind_eq_ok.mp ht
  obtain ⟨foundQ, t'', hQ, hk'⟩ := Draw.bind_eq_ok.mp hk
  simp only [Draw.pure_apply, Prod.mk.injEq, Except.ok.injEq, Option.map_eq_some_iff] at hk'
  obtain ⟨⟨m, hm, rfl, rfl⟩, -⟩ := hk'
  exact ⟨⟨t, t', hP⟩, ⟨t', t'', hQ⟩, m, hm⟩

variable [EntropySource σ]

theorem drawGenerator_eq_ok {n : OddModulus P.limbs} {h1 : P.Integer}
    (h : drawGenerator fuel n s = (.ok h1, s')) :
    ∃ r : P.Integer, (0 < r.val ∧ r.val < n.modulus.val) ∧ generatorOf? n r = some h1 := by
  obtain ⟨t, ht⟩ := Draw.untilSome_eq_ok h
  obtain ⟨r, t', hr, hk⟩ := Draw.bind_eq_ok.mp ht
  simp only [Draw.pure_apply, Prod.mk.injEq, Except.ok.injEq] at hk
  exact ⟨r, drawPositiveBelow_range (Draw.mapError_eq_ok.mp hr), hk.1⟩

theorem drawExponent_eq_ok {n order : OddModulus P.limbs} {h1 alpha beta h2 : P.Integer}
    (h : drawExponent fuel n order h1 s = (.ok (alpha, beta, h2), s')) :
    (0 < alpha.val ∧ alpha.val < order.modulus.val) ∧
      partnerOf? n order h1 alpha = some (beta, h2) := by
  obtain ⟨t, ht⟩ := Draw.untilSome_eq_ok h
  obtain ⟨drawn, t', hr, hk⟩ := Draw.bind_eq_ok.mp ht
  simp only [Draw.pure_apply, Prod.mk.injEq, Except.ok.injEq, Option.map_eq_some_iff] at hk
  obtain ⟨⟨⟨beta', h2'⟩, hpartner, rfl, rfl, rfl⟩, -⟩ := hk
  exact ⟨drawPositiveBelow_range (Draw.mapError_eq_ok.mp hr), hpartner⟩

theorem ofSafePrimes_of_moduli {safeP safeQ : P.Integer} {n order : OddModulus P.limbs}
    (h : Moduli safeP safeQ n order) :
    (ofSafePrimes fuel safeP safeQ : Draw σ GenerationError (LocalParams P)) = (do
      let h1 ← drawGenerator fuel n
      let (alpha, beta, h2) ← drawExponent fuel n order h1
      pure ⟨n.modulus, h1, h2, alpha, beta, safeP.half, safeQ.half⟩) := by
  have hn : OddModulus.ofUint? n.modulus = some n := OddModulus.ofUint?_eq_some_iff.mpr rfl
  have ho : OddModulus.ofUint? (safeP.half.wrappingMul safeQ.half) = some order :=
    OddModulus.ofUint?_eq_some_iff.mpr h.order_eq
  simp only [ofSafePrimes, h.product, hn, ho]

/-- Without the moduli, nothing is drawn. -/
theorem ofSafePrimes_cases (fuel : ℕ) (safeP safeQ : P.Integer) :
    (∃ n order, Moduli safeP safeQ n order) ∨
      ∃ e, (ofSafePrimes fuel safeP safeQ : Draw σ _ _) = .fail e := by
  cases hm : safeP.checkedMul safeQ with
  | none => exact Or.inr ⟨.invalidModulus, by simp only [ofSafePrimes, hm]⟩
  | some modulus =>
    cases hn : OddModulus.ofUint? modulus with
    | none => exact Or.inr ⟨.invalidModulus, by simp only [ofSafePrimes, hm, hn]⟩
    | some n =>
      cases ho : OddModulus.ofUint? (safeP.half.wrappingMul safeQ.half) with
      | none => exact Or.inr ⟨.zeroGroupOrder, by simp only [ofSafePrimes, hm, hn, ho]⟩
      | some order =>
        obtain rfl := OddModulus.ofUint?_eq_some_iff.mp hn
        exact Or.inl ⟨n, order, hm, OddModulus.ofUint?_eq_some_iff.mp ho⟩

theorem ofSafePrimes_eq_ok {safeP safeQ : P.Integer} {l : LocalParams P}
    (h : ofSafePrimes fuel safeP safeQ s = (.ok l, s')) :
    ∃ r n order, l.Picked safeP safeQ r n order := by
  rcases ofSafePrimes_cases (σ := σ) fuel safeP safeQ with ⟨n, order, hmoduli⟩ | ⟨e, hfail⟩
  · rw [ofSafePrimes_of_moduli hmoduli] at h
    obtain ⟨h1, t, hgen, hk⟩ := Draw.bind_eq_ok.mp h
    obtain ⟨⟨alpha, beta, h2⟩, t', hexp, hp⟩ := Draw.bind_eq_ok.mp hk
    cases hp
    obtain ⟨r, hr, hsquare⟩ := drawGenerator_eq_ok hgen
    obtain ⟨halpha, hpartner⟩ := drawExponent_eq_ok hexp
    exact ⟨r, n, order, rfl, hmoduli.modulus_val, rfl, rfl, hmoduli.order_eq.symm, hr, hsquare,
      halpha, hpartner⟩
  · rw [hfail] at h
    cases h

/-- A run that gives parameters picked them for two different primes, whose product has the size of
a modulus. -/
theorem randomWith_eq_ok {drawPrime : Draw σ GenerationError P.Integer} {l : LocalParams P}
    (h : randomWith fuel drawPrime s = (.ok l, s')) :
    ∃ safeP safeQ r n order, (∃ t t', drawPrime t = (.ok safeP, t')) ∧
      (∃ t t', drawPrime t = (.ok safeQ, t')) ∧ safeP ≠ safeQ ∧
        l.modulus.bits = P.modulusBits ∧ l.Picked safeP safeQ r n order := by
  obtain ⟨⟨safeP, safeQ⟩, t, hprimes, hpick⟩ := Draw.bind_eq_ok.mp h
  obtain ⟨hP, hQ, m, hm⟩ := drawPrimes_eq_ok hprimes
  obtain ⟨r, n, order, hpicked⟩ := ofSafePrimes_eq_ok hpick
  obtain ⟨hne, hproduct, hbits⟩ := modulusOf?_eq_some_iff.mp hm
  have hmodulus : l.modulus = m := by
    apply Uint.ext_val
    rw [hpicked.modulus_eq, hpicked.product, hproduct]
  exact ⟨safeP, safeQ, r, n, order, hP, hQ, hne, hmodulus ▸ hbits, hpicked⟩

end Runs

namespace Picked

variable {l : LocalParams P} {safeP safeQ r : P.Integer} {n order : OddModulus P.limbs}

theorem moduli (h : l.Picked safeP safeQ r n order) : Moduli safeP safeQ n order where
  product := Uint.ofNat?_eq_some_iff.mpr h.product
  order_eq := by rw [h.order_eq, h.p_eq, h.q_eq]

theorem order_val (h : l.Picked safeP safeQ r n order) :
    order.modulus.val = l.p.val * l.q.val := by
  rw [h.moduli.order_val, h.p_eq, h.q_eq]

theorem safe_odd (h : l.Picked safeP safeQ r n order) :
    safeP.val % 2 = 1 ∧ safeQ.val % 2 = 1 := OddModulus.factors_odd h.product

theorem safeP_val (h : l.Picked safeP safeQ r n order) : safeP.val = 2 * l.p.val + 1 := by
  have hodd := h.safe_odd.1
  rw [h.p_eq]
  show safeP.val = 2 * (safeP.val / 2) + 1
  omega

theorem safeQ_val (h : l.Picked safeP safeQ r n order) : safeQ.val = 2 * l.q.val + 1 := by
  have hodd := h.safe_odd.2
  rw [h.q_eq]
  show safeQ.val = 2 * (safeQ.val / 2) + 1
  omega

theorem modulus_val (h : l.Picked safeP safeQ r n order) :
    l.modulus.val = (2 * l.p.val + 1) * (2 * l.q.val + 1) := by
  rw [h.modulus_eq, h.product, h.safeP_val, h.safeQ_val]

theorem h1_eq_square (h : l.Picked safeP safeQ r n order) :
    l.h1.val = r.val * r.val % l.modulus.val := by
  rw [(generatorOf?_eq_some_iff.mp h.generator).1, h.modulus_eq]
  rfl

theorem one_lt_h1 (h : l.Picked safeP safeQ r n order) : 1 < l.h1.val :=
  (generatorOf?_eq_some_iff.mp h.generator).2

theorem h1_range (h : l.Picked safeP safeQ r n order) :
    0 < l.h1.val ∧ l.h1.val < l.modulus.val := by
  refine ⟨Nat.zero_lt_of_lt h.one_lt_h1, ?_⟩
  rw [h.h1_eq_square, h.modulus_eq]
  exact Nat.mod_lt _ n.pos

/-- The exponent fits into the bits of the modulus, so `h2` is the full power of `h1`. -/
theorem h2_val (h : l.Picked safeP safeQ r n order)
    (hbits : l.modulus.bits = P.modulusBits) :
    l.h2.val = l.h1.val ^ l.alpha.val % l.modulus.val := by
  obtain ⟨-, hpower, -⟩ := partnerOf?_eq_some_iff.mp h.partner
  rw [h.modulus_eq] at hbits
  rw [hpower, h.modulus_eq]
  exact n.powBounded_val_of_lt l.h1 (h.exponent_range.2.trans (h.moduli.order_lt hbits.le))

/-- Both generators are powers of a square, and these repeat after `p * q` steps. -/
theorem h1_period (h : l.Picked safeP safeQ r n order) (hP : safeP.val.Prime)
    (hQ : safeQ.val.Prime) (hne : safeP ≠ safeQ) :
    HasPeriod l.h1.val (l.p.val * l.q.val) l.modulus.val := by
  rw [(generatorOf?_eq_some_iff.mp h.generator).1, h.modulus_eq, h.p_eq, h.q_eq]
  exact OddModulus.mul_self_period hP hQ hne h.product r

theorem alpha_mul_beta (h : l.Picked safeP safeQ r n order) :
    l.alpha.val * l.beta.val ≡ 1 [MOD l.p.val * l.q.val] := by
  obtain ⟨hinverse, -, -⟩ := partnerOf?_eq_some_iff.mp h.partner
  rw [← h.order_val]
  exact OddModulus.inverse?_eq_some hinverse

theorem order_pos (h : l.Picked safeP safeQ r n order) : 0 < l.p.val * l.q.val := by
  rw [← h.order_val]
  exact order.pos

theorem alpha_range (h : l.Picked safeP safeQ r n order) :
    0 < l.alpha.val ∧ l.alpha.val < l.p.val * l.q.val := by
  rw [← h.order_val]
  exact h.exponent_range

/-- As there is an exponent, the order is above one, and zero has no inverse. -/
theorem alpha_mul_beta_pos (h : l.Picked safeP safeQ r n order) :
    0 < l.alpha.val * l.beta.val := by
  have hinverse := h.alpha_mul_beta
  obtain ⟨hpos, hlt⟩ := h.alpha_range
  apply Nat.pos_of_ne_zero
  intro hz
  rw [hz, Nat.ModEq, Nat.zero_mod, Nat.mod_eq_of_lt (by omega)] at hinverse
  omega

theorem beta_range (h : l.Picked safeP safeQ r n order) :
    0 < l.beta.val ∧ l.beta.val < l.p.val * l.q.val := by
  obtain ⟨hinverse, -, -⟩ := partnerOf?_eq_some_iff.mp h.partner
  rw [← h.order_val]
  exact ⟨Nat.pos_of_mul_pos_left h.alpha_mul_beta_pos, OddModulus.inverse?_lt hinverse⟩

theorem h1_val (h : l.Picked safeP safeQ r n order) (hbits : l.modulus.bits = P.modulusBits)
    (hperiod : HasPeriod l.h1.val (l.p.val * l.q.val) l.modulus.val) :
    l.h1.val = l.h2.val ^ l.beta.val % l.modulus.val := by
  have hpow : l.h2.val ^ l.beta.val ≡ l.h1.val [MOD l.modulus.val] :=
    calc l.h2.val ^ l.beta.val
        ≡ (l.h1.val ^ l.alpha.val) ^ l.beta.val [MOD l.modulus.val] := by
          rw [h.h2_val hbits]
          exact (Nat.mod_modEq _ _).pow _
      _ = l.h1.val ^ (l.alpha.val * l.beta.val) := (pow_mul _ _ _).symm
      _ ≡ l.h1.val ^ 1 [MOD l.modulus.val] :=
          hperiod.pow_modEq h.alpha_mul_beta_pos Nat.one_pos h.alpha_mul_beta
      _ = l.h1.val := pow_one _
  rw [hpow, Nat.mod_eq_of_lt h.h1_range.2]

end Picked

end LocalParams

end DlogProof
