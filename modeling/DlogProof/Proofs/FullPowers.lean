import DlogProof.Proofs.HonestRound
import DlogProof.Proofs.ProverResult

namespace DlogProof

namespace OddModulus

variable {limbs : ℕ} {n : OddModulus limbs} {b e : Uint limbs} {bits : ℕ}

/-- Whether the lowest `bits` bits are all of an exponent, so that the power in which only these
count is the full one. The base need not be reduced. -/
structure FullPower (n : OddModulus limbs) (b e : Uint limbs) (bits : ℕ) : Prop where
  exponent_lt : e.val < 2 ^ bits
  bounded_eq : n.powBounded b e bits = n.pow b e
  value : (n.pow b e).val = b.val ^ e.val % n.modulus.val

theorem FullPower.of_lt (h : e.val < 2 ^ bits) : n.FullPower b e bits where
  exponent_lt := h
  bounded_eq := by
    apply Uint.ext_val
    rw [n.powBounded_val_of_lt b h, pow_val]
  value := n.pow_val b e

end OddModulus

namespace Prover

variable {limbs : ℕ} {prover : Prover limbs} {s : Statement limbs} {w : Witness limbs}

theorem Checked.bits_eq (h : prover.Checked s w) : prover.order.bits = bitLength w.order :=
  congrArg bitLength h.order_eq

/-- The nonces are below the order, so they have no more bits than it has. -/
theorem Checked.fullPower_of_drawNonces {σ : Type} [EntropySource σ] {fuel count : ℕ} {t t' : σ}
    {nonces : List (Uint limbs)} (h : prover.Checked s w)
    (hdraw : drawNonces fuel prover.order count t = (.ok nonces, t')) :
    ∀ a ∈ nonces, prover.modulus.FullPower s.base a (bitLength w.order) := by
  intro a ha
  rw [← h.bits_eq]
  apply OddModulus.FullPower.of_lt
  exact ((drawNonces_range hdraw).2 a ha).2.trans (lt_two_pow_bitLength _)

end Prover

/-- A second step can be replaced by one that is the same for every value of the first. -/
theorem Draw.bind_congr_of_ok {σ ε α β : Type} {x : Draw σ ε α} {f g : α → Draw σ ε β}
    (h : ∀ s a s', x s = (.ok a, s') → f a = g a) : x >>= f = x >>= g := by
  funext s
  rcases hrun : x s with ⟨r, s'⟩
  cases r with
  | ok a => rw [bind_ok hrun, bind_ok hrun, h s a s' hrun]
  | error e => rw [bind_error hrun, bind_error hrun]

namespace LocalParams

variable {P : Params} {σ : Type}

/-- The inverse of `alpha` modulo the order and the full power `h1 ^ alpha`, if they can be used. -/
def fullPartnerOf? (n order : OddModulus P.limbs) (h1 alpha : P.Integer) :
    Option (P.Integer × P.Integer) :=
  (order.inverse? alpha).bind fun beta =>
    if n.pow h1 alpha = h1 then none else some (beta, n.pow h1 alpha)

section Search

variable [EntropySource σ] {fuel : ℕ} {safeP safeQ h1 alpha : P.Integer}
  {n order : OddModulus P.limbs} {t t' : σ}

/-- The search for an exponent, with full powers. -/
def drawFullExponent (fuel : ℕ) (n order : OddModulus P.limbs) (h1 : P.Integer) :
    Draw σ GenerationError (P.Integer × P.Integer × P.Integer) :=
  Draw.untilSome (do
    let alpha ← (drawPositiveBelow fuel order.modulus).mapError .sampling
    pure ((fullPartnerOf? n order h1 alpha).map fun (beta, h2) => (alpha, beta, h2))) fuel

theorem partnerOf?_eq_fullPartnerOf? (h : n.FullPower h1 alpha P.modulusBits) :
    partnerOf? n order h1 alpha = fullPartnerOf? n order h1 alpha := by
  rw [partnerOf?, fullPartnerOf?, h.bounded_eq]
  cases order.inverse? alpha <;> rfl

namespace Moduli

variable (h : Moduli safeP safeQ n order) (hbits : n.modulus.bits ≤ P.modulusBits)
include h hbits

/-- The exponents are below the order, and this is below the modulus. -/
theorem fullPower_of_draw (h1 : P.Integer)
    (hdraw : drawPositiveBelow fuel order.modulus t = (.ok alpha, t')) :
    n.FullPower h1 alpha P.modulusBits := by
  apply OddModulus.FullPower.of_lt
  exact (drawPositiveBelow_range hdraw).2.trans (h.order_lt hbits)

theorem drawExponent_eq (fuel : ℕ) (h1 : P.Integer) :
    (drawExponent fuel n order h1 : Draw σ _ _) = drawFullExponent fuel n order h1 := by
  rw [drawExponent, drawFullExponent]
  congr 1
  -- The steps differ for exponents that are too large, but none such is drawn.
  apply Draw.bind_congr_of_ok
  intro s alpha s' hdraw
  have hfull := h.fullPower_of_draw hbits h1 (Draw.mapError_eq_ok.mp hdraw)
  rw [partnerOf?_eq_fullPartnerOf? hfull]

/-- Generation goes as it would with full powers, the rejected exponents included. -/
theorem ofSafePrimes_eq (fuel : ℕ) :
    (ofSafePrimes fuel safeP safeQ : Draw σ GenerationError (LocalParams P)) = (do
      let h1 ← drawGenerator fuel n
      let (alpha, beta, h2) ← drawFullExponent fuel n order h1
      pure ⟨n.modulus, h1, h2, alpha, beta, safeP.half, safeQ.half⟩) := by
  rw [ofSafePrimes_of_moduli h]
  congr 1
  funext h1
  rw [h.drawExponent_eq hbits]

end Moduli

end Search

/-- The primes that are drawn have a product of the size of a modulus. -/
theorem Moduli.bits_of_drawPrimes {drawPrime : Draw σ GenerationError P.Integer} {fuel : ℕ}
    {safeP safeQ : P.Integer} {n order : OddModulus P.limbs} {t t' : σ}
    (h : Moduli safeP safeQ n order)
    (hdraw : drawPrimes fuel drawPrime t = (.ok (safeP, safeQ), t')) :
    n.modulus.bits = P.modulusBits := by
  obtain ⟨-, -, m, hm⟩ := drawPrimes_eq_ok hdraw
  obtain ⟨-, hproduct, hbits⟩ := modulusOf?_eq_some_iff.mp hm
  have heq : n.modulus = m := Uint.ext_val (h.modulus_val.trans hproduct.symm)
  rw [heq, hbits]

end LocalParams

/-- No exponent has more bits than count in its power. The prover raises the base, reduced or not,
to nonces below the order, and as many bits count as the order has. For the generators, `h1` is
raised to exponents below the order, and as many bits count as a modulus has. The drawn primes have
a product of that size, and for any that have no larger one generation goes as it would with full
powers. Without a product and an order there are no powers. -/
theorem powers_not_truncated {σ : Type} [EntropySource σ] :
    (∀ {limbs : ℕ} (s : Statement limbs) (w : Witness limbs) (prover : Prover limbs) (fuel : ℕ)
        (t t' : σ) (nonces : List (Uint limbs)), Prover.ofInputs s w = .ok prover →
      drawNonces fuel prover.order iterations t = (.ok nonces, t') →
        s.modulus = prover.modulus.modulus ∧
        (prover.commitments s nonces =
          nonces.map fun a => prover.modulus.powBounded s.base a (bitLength w.order)) ∧
        ∀ a ∈ nonces, prover.modulus.FullPower s.base a (bitLength w.order)) ∧
    ∀ {P : Params} (safeP safeQ : P.Integer) (fuel : ℕ),
      ((∃ n order, LocalParams.Moduli safeP safeQ n order) ∨
        ∃ e, (LocalParams.ofSafePrimes fuel safeP safeQ : Draw σ _ _) = .fail e) ∧
      ∀ n order : OddModulus P.limbs, LocalParams.Moduli safeP safeQ n order →
        (∀ (drawPrime : Draw σ GenerationError P.Integer) (t t' : σ),
          LocalParams.drawPrimes fuel drawPrime t = (.ok (safeP, safeQ), t') →
            n.modulus.bits = P.modulusBits) ∧
        (n.modulus.bits ≤ P.modulusBits →
          (∀ (h1 alpha : P.Integer) (t t' : σ),
            drawPositiveBelow fuel order.modulus t = (.ok alpha, t') →
              n.FullPower h1 alpha P.modulusBits) ∧
          (LocalParams.ofSafePrimes fuel safeP safeQ : Draw σ GenerationError _) = (do
            let h1 ← LocalParams.drawGenerator fuel n
            let (alpha, beta, h2) ← LocalParams.drawFullExponent fuel n order h1
            pure ⟨n.modulus, h1, h2, alpha, beta, safeP.half, safeQ.half⟩)) := by
  constructor
  · intro limbs s w prover fuel t t' nonces h hdraw
    have hcheck := Prover.ofInputs_eq_ok_iff.mp h
    refine ⟨hcheck.modulus_eq, ?_, hcheck.fullPower_of_drawNonces hdraw⟩
    rw [← hcheck.bits_eq]
    exact prover.commitments_eq s nonces
  · intro P safeP safeQ fuel
    refine ⟨LocalParams.ofSafePrimes_cases fuel safeP safeQ, ?_⟩
    intro n order h
    refine ⟨?_, fun hbits => ⟨?_, ?_⟩⟩
    · intro drawPrime t t'
      exact h.bits_of_drawPrimes
    · intro h1 alpha t t'
      exact h.fullPower_of_draw hbits h1
    · exact h.ofSafePrimes_eq hbits fuel

/-- A base above the modulus and the largest nonce, and the largest exponent for the eight-bit
primes. -/
theorem powers_not_truncated_eightBit :
    let s : Statement 1 := ⟨⟨9, by decide⟩, ⟨4, by decide⟩, ⟨7, by decide⟩⟩
    let prover : Prover 1 := ⟨⟨s.modulus, by decide⟩, ⟨3, by decide⟩, ⟨2, by decide⟩⟩
    let n : OddModulus 1 := ⟨LocalParams.eightBit.modulus, by decide⟩
    let order : OddModulus 1 := ⟨⟨9379, by decide⟩, by decide⟩
    Prover.ofInputs s ⟨⟨2, by decide⟩, ⟨3, by decide⟩, ⟨1, by decide⟩⟩ = .ok prover ∧
      prover.modulus.FullPower s.base ⟨2, by decide⟩ 2 ∧
      LocalParams.Moduli (P := .eightBit) ⟨167, by decide⟩ ⟨227, by decide⟩ n order ∧
      n.modulus.bits = 16 ∧ n.FullPower LocalParams.eightBit.h1 ⟨9378, by decide⟩ 16 := by
  intro s prover n order
  have hinputs : Prover.ofInputs s ⟨⟨2, by decide⟩, ⟨3, by decide⟩, ⟨1, by decide⟩⟩ = .ok prover :=
    Prover.ofInputs_eq_ok_iff.mpr ⟨rfl, rfl, by decide, by decide +kernel, by decide⟩
  have hmoduli : LocalParams.Moduli (P := .eightBit) ⟨167, by decide⟩ ⟨227, by decide⟩ n order :=
    ⟨by decide +kernel, by decide +kernel⟩
  have hnonces : (drawNonces 1 prover.order iterations
      (Script.ofBytes (List.replicate 128 2) none)).1 = .ok (List.replicate 128 ⟨2, by decide⟩) := by
    decide +kernel
  have halpha : (drawPositiveBelow 1 order.modulus (Script.ofBytes [0x24, 0xa2] none)).1 =
      .ok ⟨9378, by decide⟩ := by decide +kernel
  obtain ⟨t, hrun⟩ := Draw.exists_eq_ok hnonces
  obtain ⟨u, hrun'⟩ := Draw.exists_eq_ok halpha
  obtain ⟨hprover, hgeneration⟩ := powers_not_truncated (σ := Script)
  obtain ⟨-, -, hnonce⟩ := hprover s _ prover 1 _ _ _ hinputs hrun
  obtain ⟨hdrawn, hfit⟩ := (hgeneration (P := .eightBit) _ _ 1).2 n order hmoduli
  have hbits : n.modulus.bits = 16 := hdrawn _ _ _ LocalParams.drawPrimes_eightBit
  refine ⟨hinputs, ?_, hmoduli, hbits, (hfit hbits.le).1 _ _ _ _ hrun'⟩
  exact hnonce _ (List.mem_replicate.mpr ⟨by decide, rfl⟩)

end DlogProof
