import DlogProof.Proofs.LocalParams
import DlogProof.Proofs.Refusal

namespace DlogProof

namespace Uint

variable {limbs j k : ℕ} {a b : Uint limbs}

theorem mul_lt_two_pow (ha : a.bits ≤ j) (hb : b.bits ≤ k) : a.val * b.val < 2 ^ (j + k) := by
  rw [Nat.pow_add]
  exact Nat.mul_lt_mul'' (bits_le_iff.mp ha) (bits_le_iff.mp hb)

theorem half_bits_le (ha : a.bits ≤ k + 1) : a.half.bits ≤ k := by
  have hlt : a.val < 2 ^ (k + 1) := bits_le_iff.mp ha
  rw [bits_le_iff]
  show a.val / 2 < 2 ^ k
  omega

theorem exists_checkedMul (h : a.val * b.val < 2 ^ bitWidth limbs) :
    ∃ c, a.checkedMul b = some c ∧ a.wrappingMul b = c ∧ c.val = a.val * b.val :=
  ⟨⟨_, h⟩, ofNat?_eq_some_iff.mpr rfl, ext_val (Nat.mod_eq_of_lt h), rfl⟩

end Uint

/-- What the generation of parameters relies on a prime for. -/
structure HonestPrime (P : Params) (v : P.Integer) : Prop where
  safe : SafePrime v.val
  bits : v.bits = P.primeBits
  mod_four : v.val % 4 = 3

namespace HonestPrime

variable {P : Params} {safeP safeQ : P.Integer}

theorem primeBits_pos (h : HonestPrime P safeP) : 0 < P.primeBits := by
  have hmod := h.mod_four
  rw [← h.bits, Nat.pos_iff_ne_zero, ne_eq, ← Nat.le_zero, Uint.bits_le_iff]
  omega

theorem odd (h : HonestPrime P safeP) : safeP.val % 2 = 1 := by
  have hmod := h.mod_four
  omega

theorem half_odd (h : HonestPrime P safeP) : safeP.half.val % 2 = 1 := by
  have hmod := h.mod_four
  show safeP.val / 2 % 2 = 1
  omega

section Pair

variable (hP : HonestPrime P safeP) (hQ : HonestPrime P safeQ)
include hP hQ

theorem mul_odd : safeP.val * safeQ.val % 2 = 1 := by
  rw [Nat.mul_mod, hP.odd, hQ.odd]

theorem half_mul_half_odd : safeP.half.val * safeQ.half.val % 2 = 1 := by
  rw [Nat.mul_mod, hP.half_odd, hQ.half_odd]

theorem two_le_half_mul_half : 2 ≤ safeP.half.val * safeQ.half.val :=
  hP.safe.2.two_le.trans (Nat.le_mul_of_pos_right _ hQ.safe.2.pos)

variable (hwidth : 2 * P.primeBits ≤ Uint.bitWidth P.limbs)
include hwidth

/-- The product of the primes fits, also if a modulus takes up all bits of the integer type. -/
theorem mul_lt : safeP.val * safeQ.val < 2 ^ Uint.bitWidth P.limbs :=
  calc safeP.val * safeQ.val
      < 2 ^ (P.primeBits + P.primeBits) := Uint.mul_lt_two_pow hP.bits.le hQ.bits.le
    _ ≤ 2 ^ Uint.bitWidth P.limbs := Nat.pow_le_pow_right Nat.two_pos (by omega)

/-- Each half is one bit shorter, so their product leaves two bits. -/
theorem half_mul_half_lt :
    safeP.half.val * safeQ.half.val < 2 ^ (Uint.bitWidth P.limbs - 1) := by
  have hpos := hP.primeBits_pos
  have hbits : P.primeBits ≤ P.primeBits - 1 + 1 := by omega
  calc safeP.half.val * safeQ.half.val
      < 2 ^ (P.primeBits - 1 + (P.primeBits - 1)) :=
        Uint.mul_lt_two_pow (Uint.half_bits_le (hP.bits.le.trans hbits))
          (Uint.half_bits_le (hQ.bits.le.trans hbits))
    _ ≤ 2 ^ (Uint.bitWidth P.limbs - 1) := Nat.pow_le_pow_right Nat.two_pos (by omega)

theorem exists_order : ∃ order : P.Integer, safeP.half.checkedMul safeQ.half = some order ∧
    safeP.half.wrappingMul safeQ.half = order ∧ order.bits < Uint.bitWidth P.limbs ∧
      order.val = safeP.half.val * safeQ.half.val := by
  have hpos := hP.primeBits_pos
  have hlt := hP.half_mul_half_lt hQ hwidth
  have hfit := hlt.trans_le (Nat.pow_le_pow_right Nat.two_pos (Nat.sub_le _ 1))
  obtain ⟨order, hchecked, hwrap, hval⟩ := Uint.exists_checkedMul hfit
  have hbits : order.bits ≤ Uint.bitWidth P.limbs - 1 := Uint.bits_le_iff.mpr (hval ▸ hlt)
  exact ⟨order, hchecked, hwrap, by omega, hval⟩

end Pair

end HonestPrime

/-- Whether a way of drawing primes reports no error of its own, and gives primes of the form that
generation relies on. It may still abort. -/
structure DrawsHonestPrimes {σ : Type} (P : Params) (drawPrime : Draw σ GenerationError P.Integer) :
    Prop where
  not_failed : drawPrime.StopsOnly fun stop => ∀ e, stop ≠ .failed e
  honest : ∀ s v s', drawPrime s = (.ok v, s') → HonestPrime P v

/-- The search for safe primes leaves only that they are safe to its tests. -/
theorem drawsHonestPrimes_drawSafePrime {σ : Type} [EntropySource σ] {P : Params} {fuel : ℕ}
    (hb : 3 ≤ P.primeBits)
    (hsafe : ∀ (s : σ) v s', (drawSafePrime P.limbs P.primeBits fuel : Draw σ GenerationError _) s =
      (.ok v, s') → SafePrime v.val) :
    DrawsHonestPrimes P (drawSafePrime P.limbs P.primeBits fuel : Draw σ GenerationError _) where
  not_failed := by
    have haborted : ∀ e : GenerationError, Stop.aborted ≠ .failed e := fun _ => by simp
    have hfuel : ∀ e : GenerationError, Stop.outOfFuel ≠ .failed e := fun _ => by simp
    have hattempt : (attemptSafePrime P.primeBits : Draw σ GenerationError _).StopsOnly
        fun stop => ∀ e, stop ≠ .failed e :=
      (Draw.StopsOnly.orAbort haborted hfuel _).bind fun _ _ _ _ => .pure _
    exact (hattempt.untilSome hfuel fuel).bind fun _ _ _ _ => .ofOption haborted _
  honest s v s' h :=
    ⟨hsafe s v s' h, (drawSafePrime_bits hb h).1, (drawSafePrime_bits hb h).2⟩

namespace LocalParams

variable {σ : Type} {P : Params} {fuel : ℕ} {safeP safeQ : P.Integer}
  {drawPrime : Draw σ GenerationError P.Integer}

theorem drawPrimes_stopsOnly {p : Stop GenerationError → Prop} (h : drawPrime.StopsOnly p)
    (hfuel : p .outOfFuel) : (drawPrimes fuel drawPrime).StopsOnly p := by
  refine .untilSome (h.bind fun _ _ _ _ => ?_) hfuel fuel
  exact h.bind fun _ _ _ _ => .pure _

variable [EntropySource σ] (hwidth : 2 * P.primeBits ≤ Uint.bitWidth P.limbs)
include hwidth

/-- From honest primes, only the source makes picking the generators fail. -/
theorem ofSafePrimes_stopsOnly (hP : HonestPrime P safeP) (hQ : HonestPrime P safeQ) :
    (ofSafePrimes fuel safeP safeQ : Draw σ _ _).StopsOnly
      (Stop.Refused σ GenerationError.refused) := by
  obtain ⟨modulus, hm, -, hmodulus⟩ := Uint.exists_checkedMul (hP.mul_lt hQ hwidth)
  obtain ⟨m, -, hwrap, -, hval⟩ := hP.exists_order hQ hwidth
  let n : OddModulus P.limbs := ⟨modulus, hmodulus ▸ hP.mul_odd hQ⟩
  let order : OddModulus P.limbs := ⟨m, hval ▸ hP.half_mul_half_odd hQ⟩
  have hmoduli : Moduli safeP safeQ n order := ⟨hm, hwrap⟩
  have hlow : 2 ≤ order.modulus.val := hval ▸ hP.two_le_half_mul_half hQ
  have hlow' : 2 ≤ n.modulus.val := by
    rw [hmodulus]
    exact hP.safe.1.two_le.trans (Nat.le_mul_of_pos_right _ hQ.safe.1.pos)
  rw [ofSafePrimes_of_moduli hmoduli]
  refine .bind (drawGenerator_stopsOnly hlow') fun _ _ _ _ => ?_
  exact .bind (drawExponent_stopsOnly hlow) fun _ _ _ _ => .pure _

/-- Apart from the source, only the way of drawing primes can end the generation, by an abort. -/
theorem randomWith_stopsOnly (hdraw : DrawsHonestPrimes P drawPrime) :
    (randomWith fuel drawPrime).StopsOnly fun stop => stop.Refused σ GenerationError.refused ∨
      stop = .aborted ∧ ∃ t t', drawPrime t = (.error .aborted, t') := by
  have hprime : drawPrime.StopsOnly fun stop => stop.Refused σ GenerationError.refused ∨
      stop = .aborted ∧ ∃ t t', drawPrime t = (.error .aborted, t') := by
    intro t stop t' h
    cases stop with
    | failed e => exact absurd rfl (hdraw.not_failed t _ t' h e)
    | aborted => exact Or.inr ⟨rfl, t, t', h⟩
    | outOfFuel => exact Or.inl .outOfFuel
  refine (drawPrimes_stopsOnly hprime (Or.inl .outOfFuel)).bind fun s (safeP, safeQ) s' hrun => ?_
  obtain ⟨⟨t, t', hP⟩, ⟨u, u', hQ⟩, -⟩ := drawPrimes_eq_ok hrun
  intro v stop v' h
  exact Or.inl (ofSafePrimes_stopsOnly hwidth (hdraw.honest t _ t' hP) (hdraw.honest u _ u' hQ)
    v stop v' h)

/-- The parameters of a run pass the checks of the prover. -/
theorem inputError?_of_randomWith {l : LocalParams P} {s s' : σ}
    (hdraw : DrawsHonestPrimes P drawPrime) (h : randomWith fuel drawPrime s = (.ok l, s')) :
    inputError? l.statement l.witness = none := by
  obtain ⟨safeP, safeQ, r, n, order, ⟨t, t', hP⟩, ⟨u, u', hQ⟩, -, -, hpicked⟩ := randomWith_eq_ok h
  have hprime := hdraw.honest t _ t' hP
  have hprime' := hdraw.honest u _ u' hQ
  have horder : l.witness.order = safeP.half.val * safeQ.half.val := by
    rw [← hpicked.p_eq, ← hpicked.q_eq]
    rfl
  rw [inputError?_eq_none_iff, horder]
  refine ⟨?_, hprime.two_le_half_mul_half hprime', hprime.half_mul_half_lt hprime' hwidth⟩
  show l.modulus.val % 2 = 1
  rw [hpicked.modulus_eq]
  exact n.odd

end LocalParams

/-- Only the source can make an honest party fail. The one error that generation reports is that the
source has refused to give bytes, and it is the one error of the first round with the parameters
that it gave, also where a modulus takes up all bits of the integer type. No product of the primes
or of their halves overflows, and that of the halves leaves a bit to spare. -/
theorem honest_party_fails_only_by_source {P : Params} {σ : Type} [EntropySource σ]
    {drawPrime : Draw σ GenerationError P.Integer} (hfit : P.selfConsistent = true)
    (hbits : P.modulusBits = 2 * P.primeBits) (hdraw : DrawsHonestPrimes P drawPrime) (fuel : ℕ) :
    ((LocalParams.randomWith fuel drawPrime).StopsOnly fun stop =>
      stop.Refused σ GenerationError.refused ∨
        stop = .aborted ∧ ∃ t t', drawPrime t = (.error .aborted, t')) ∧
    (∀ (l : LocalParams P) (s s' : σ), LocalParams.randomWith fuel drawPrime s = (.ok l, s') →
      ∀ (τ : Type) [EntropySource τ] (fuel' : ℕ) (ownIdx : PartyIdx) (paillierModulus : P.Integer),
        (FirstRound.start fuel' ownIdx l paillierModulus : Draw τ _ _).StopsOnly
          (Stop.Refused τ fun reason => .ownSide (.generation (.refused reason)))) ∧
    ∀ (safeP safeQ : P.Integer) (s s' t t' : σ), drawPrime s = (.ok safeP, s') →
      drawPrime t = (.ok safeQ, t') →
        (∃ modulus, safeP.checkedMul safeQ = some modulus) ∧
        ∃ order, safeP.half.checkedMul safeQ.half = some order ∧
          safeP.half.wrappingMul safeQ.half = order ∧ order.bits < Uint.bitWidth P.limbs := by
  have hwidth : 2 * P.primeBits ≤ Uint.bitWidth P.limbs := hbits ▸ of_decide_eq_true hfit
  refine ⟨LocalParams.randomWith_stopsOnly hwidth hdraw, ?_, ?_⟩
  · intro l s s' hrun τ _ fuel' ownIdx paillierModulus
    exact FirstRound.start_stopsOnly (LocalParams.inputError?_of_randomWith hwidth hdraw hrun)
  · intro safeP safeQ s s' t t' hs ht
    have hP := hdraw.honest s _ s' hs
    have hQ := hdraw.honest t _ t' ht
    obtain ⟨modulus, hm, -⟩ := Uint.exists_checkedMul (hP.mul_lt hQ hwidth)
    obtain ⟨order, hchecked, hwrap, hspare, -⟩ := hP.exists_order hQ hwidth
    exact ⟨⟨modulus, hm⟩, order, hchecked, hwrap, hspare⟩

/-- Parameters from a run, and a source that has no bytes left for the proofs. -/
theorem honest_party_fails_only_by_source_eightBit :
    ∃ s', LocalParams.random 1 Script.eightBitParams = (.ok .eightBit, s') ∧
      (FirstRound.start 1 ⟨1⟩ .eightBit ⟨40001, by decide⟩ : Draw Script _ _).StopsOnly
        (Stop.Refused Script fun reason => .ownSide (.generation (.refused reason))) ∧
      (FirstRound.start 1 ⟨1⟩ .eightBit ⟨40001, by decide⟩ (Script.ofBytes [] none)).1 =
        .error (.failed (.ownSide (.generation (.refused "entropy source is unavailable")))) := by
  obtain ⟨s', hrun⟩ := LocalParams.random_eightBit
  have hdraw : DrawsHonestPrimes .eightBit (drawSafePrime 1 8 1 : Draw Script GenerationError _) :=
    drawsHonestPrimes_drawSafePrime (P := .eightBit) (by decide) fun t v t' =>
      drawSafePrime_prime (by decide) (by decide)
  have honly := honest_party_fails_only_by_source (by decide) rfl hdraw 1
  exact ⟨s', hrun, honly.2.1 _ _ _ hrun Script 1 ⟨1⟩ _, by decide +kernel⟩

end DlogProof
