import DlogProof.Proofs.Acceptance
import DlogProof.Proofs.Blame
import DlogProof.Proofs.Generation
import DlogProof.Proofs.PrimeSearch
import Mathlib.Tactic.NormNum.Prime

namespace DlogProof

variable {P : Params}

namespace LocalParams

/-- The statement that is proved in a slot of the broadcast. -/
def slotStatement (l : LocalParams P) : Slot → Statement P.limbs
  | .first => l.statement
  | .second => l.inverseStatement

def slotWitness (l : LocalParams P) : Slot → Witness P.limbs
  | .first => l.witness
  | .second => l.inverseWitness

/-- What holds of all parameters that are generated from primes. That the generators are coprime to
the modulus is not among it. -/
structure Generated (l : LocalParams P) : Prop where
  h1_range : 0 < l.h1.val ∧ l.h1.val < l.modulus.val
  h1_period : HasPeriod l.h1.val (l.p.val * l.q.val) l.modulus.val
  order_pos : 0 < l.p.val * l.q.val
  alpha_pos : 0 < l.alpha.val
  h2_val : l.h2.val = l.h1.val ^ l.alpha.val % l.modulus.val
  h1_val : l.h1.val = l.h2.val ^ l.beta.val % l.modulus.val

theorem randomWith_generated {σ : Type} [EntropySource σ] {fuel : ℕ}
    {drawPrime : Draw σ GenerationError P.Integer} {l : LocalParams P} {s s' : σ}
    (hprime : ∀ t v t', drawPrime t = (.ok v, t') → v.val.Prime)
    (h : randomWith fuel drawPrime s = (.ok l, s')) : l.Generated := by
  obtain ⟨safeP, safeQ, r, n, order, ⟨tP, tP', hP⟩, ⟨tQ, tQ', hQ⟩, hne, hbits, hpicked⟩ :=
    randomWith_eq_ok h
  have hperiod := hpicked.h1_period (hprime _ _ _ hP) (hprime _ _ _ hQ) hne
  exact {
    h1_range := hpicked.h1_range
    h1_period := hperiod
    order_pos := hpicked.order_pos
    alpha_pos := hpicked.alpha_range.1
    h2_val := hpicked.h2_val hbits
    h1_val := hpicked.h1_val hbits hperiod }

/-- Two primes in a row that can be used make the primes of the parameters. -/
theorem drawPrimes_of_drawPrime {σ : Type} {fuel : ℕ}
    {drawPrime : Draw σ GenerationError P.Integer} {safeP safeQ m : P.Integer} {s s' s'' : σ}
    (hP : drawPrime s = (.ok safeP, s')) (hQ : drawPrime s' = (.ok safeQ, s''))
    (hm : modulusOf? safeP safeQ = some m) :
    drawPrimes (fuel + 1) drawPrime s = (.ok (safeP, safeQ), s'') := by
  refine Draw.bind_eq_ok.mpr ⟨some (safeP, safeQ), s'', ?_, rfl⟩
  refine Draw.bind_eq_ok.mpr ⟨safeP, s', hP, Draw.bind_eq_ok.mpr ⟨safeQ, s'', hQ, ?_⟩⟩
  rw [hm]
  rfl

namespace Generated

variable {l : LocalParams P}

theorem base_range (h : l.Generated) (slot : Slot) :
    0 < (l.slotStatement slot).base.val ∧
      (l.slotStatement slot).base.val < (l.slotStatement slot).modulus.val := by
  cases slot with
  | first => exact h.h1_range
  | second =>
    show 0 < l.h2.val ∧ l.h2.val < l.modulus.val
    obtain ⟨hpos, hlt⟩ := h.h1_range
    rw [h.h2_val]
    refine ⟨h.h1_period.pow_mod_pos h.order_pos ?_ _, Nat.mod_lt _ (by omega)⟩
    rw [Nat.mod_eq_of_lt hlt]
    exact hpos

theorem power_val (h : l.Generated) (slot : Slot) :
    (l.slotStatement slot).power.val =
      (l.slotStatement slot).base.val ^ (l.slotWitness slot).exponent.val %
        (l.slotStatement slot).modulus.val := by
  cases slot with
  | first => exact h.h2_val
  | second => exact h.h1_val

theorem base_period (h : l.Generated) (slot : Slot) :
    HasPeriod (l.slotStatement slot).base.val
      ((l.slotWitness slot).p.val * (l.slotWitness slot).q.val)
      (l.slotStatement slot).modulus.val := by
  cases slot with
  | first => exact h.h1_period
  | second =>
    show HasPeriod l.h2.val (l.p.val * l.q.val) l.modulus.val
    rw [h.h2_val]
    exact (h.h1_period.pow _).mod

/-- As each generator is a power of the other, they share their factors with the modulus. -/
theorem base_coprime_iff (h : l.Generated) (slot : Slot) :
    (l.slotStatement slot).base.val.Coprime (l.slotStatement slot).modulus.val ↔
      l.h1.val.Coprime l.modulus.val := by
  cases slot with
  | first => exact Iff.rfl
  | second =>
    show l.h2.val.Coprime l.modulus.val ↔ l.h1.val.Coprime l.modulus.val
    rw [h.h2_val, Nat.Coprime, (Nat.mod_modEq _ _).gcd_eq]
    exact Nat.coprime_pow_left_iff h.alpha_pos _ _

end Generated

end LocalParams

namespace FirstRound

section Runs

variable {σ : Type} [EntropySource σ] {fuel : ℕ} {ownIdx : PartyIdx} {params : LocalParams P}
  {paillierModulus : P.Integer} {round : FirstRound P} {t t' : σ}

/-- The broadcast holds the proofs of two runs, of which the second begins in the state in which the
first left the source. -/
theorem start_runs (h : start fuel ownIdx params paillierModulus t = (.ok round, t')) :
    (∀ slot, round.announcement.statement slot = params.slotStatement slot) ∧
      ∃ first second u, prove P.digest fuel params.statement params.witness t = (.ok first, u) ∧
        prove P.digest fuel params.inverseStatement params.inverseWitness u = (.ok second, t') ∧
          round.announcement.firstProof = first.toWire ∧
            round.announcement.secondProof = second.toWire := by
  obtain ⟨first, u, hfirst, hk⟩ := Draw.bind_eq_ok.mp h
  obtain ⟨second, u', hsecond, hround⟩ := Draw.bind_eq_ok.mp hk
  cases hround
  exact ⟨fun slot => by cases slot <;> rfl, first, second, u, Draw.mapError_eq_ok.mp hfirst,
    Draw.mapError_eq_ok.mp hsecond, rfl, rfl⟩

/-- The broadcast holds what a run of the prover gave for each slot. -/
theorem start_eq_ok (h : start fuel ownIdx params paillierModulus t = (.ok round, t'))
    (slot : Slot) :
    round.announcement.statement slot = params.slotStatement slot ∧
      ∃ (proof : Proof P.limbs) (u u' : σ),
        prove P.digest fuel (params.slotStatement slot) (params.slotWitness slot) u =
            (.ok proof, u') ∧
          round.announcement.wire slot = proof.toWire := by
  obtain ⟨hstatement, first, second, u, hfirst, hsecond, hwire, hwire'⟩ := start_runs h
  refine ⟨hstatement slot, ?_⟩
  cases slot with
  | first => exact ⟨first, t, u, hfirst, hwire⟩
  | second => exact ⟨second, u, t', hsecond, hwire'⟩

/-- What becomes of an honest announcement. Both proofs verify if the generators are coprime to the
modulus, and no peer blames the party then. As the root of `h1` is any residue, it may be divisible
by one of the primes. No power of `h1` is one then, and a response of zero fails. -/
theorem verifySlot_start_iff {τ : Type} [EntropySource τ] {fuel' : ℕ} {s s' : τ}
    {drawPrime : Draw τ GenerationError P.Integer}
    (hprime : ∀ u v u', drawPrime u = (.ok v, u') → v.val.Prime)
    (hparams : LocalParams.randomWith fuel' drawPrime s = (.ok params, s'))
    (hstart : start fuel ownIdx params paillierModulus t = (.ok round, t')) :
    (∀ slot, round.announcement.verifySlot slot = true ↔
      params.h1.val.Coprime params.modulus.val ∨
        ∀ i, 0 < (round.announcement.wire slot).responseValue i) ∧
    ((params.h1.val.Coprime params.modulus.val ∨
        ∀ slot i, 0 < (round.announcement.wire slot).responseValue i) →
      ∀ (r : FirstRound P) (announcements : PartyMap (Announcement P)) (party : PartyIdx)
        (workers : ℕ), 0 < workers → announcements.get? party = some round.announcement →
          ∀ fault, ¬ fault.OfForm →
            r.finalize workers announcements ≠ .error (.misbehaved party fault)) := by
  have hgen := LocalParams.randomWith_generated hprime hparams
  have hverify : ∀ slot, round.announcement.verifySlot slot = true ↔
      params.h1.val.Coprime params.modulus.val ∨
        ∀ i, 0 < (round.announcement.wire slot).responseValue i := by
    intro slot
    obtain ⟨hstatement, proof, u, u', hrun, hwire⟩ := start_eq_ok hstart slot
    have hdecode : Proof.ofWire (round.announcement.wire slot) = .ok proof :=
      hwire ▸ proof.ofWire_toWire
    rw [Announcement.verifySlot_eq_verify hdecode, hstatement,
      verify_prove_iff_of_period (hgen.base_range slot) (hgen.power_val slot)
        (hgen.base_period slot) hrun, hgen.base_coprime_iff slot]
    simp only [Proof.response_val_of_ofWire hdecode]
  refine ⟨hverify, ?_⟩
  intro hgood r announcements party workers hw hget fault hfault
  refine finalize_ne_unproved hw hget (fun slot => (hverify slot).mpr ?_) hfault
  exact hgood.imp_right fun hall => hall slot

end Runs

end FirstRound

/-- Eight-bit primes, and challenges of ones only. -/
def Params.eightBit : Params := { primeBits := 8, limbs := 1, digest := Xof.constant fun _ => true }

/-- The generators for the primes 167 and 227 when 167 itself is drawn for the root. -/
def LocalParams.eightBit : LocalParams .eightBit where
  modulus := ⟨37909, by decide⟩
  h1 := ⟨27889, by decide⟩
  h2 := ⟨17368, by decide⟩
  alpha := ⟨2, by decide⟩
  beta := ⟨4690, by decide⟩
  p := ⟨83, by decide⟩
  q := ⟨113, by decide⟩

/-- The primes, the root 167 and the exponent two, with nothing that is rejected. -/
def Script.eightBitParams : Script :=
  .ofBytes [0, 0, 0, 0, 0, 0, 0, 167, 0, 0, 0, 0, 0, 0, 0, 227, 0, 167, 0, 2] none

/-- Nonces for the two proofs. With the exponent of its proof, each of them adds up to the order. -/
def Script.eightBitNonces : Script :=
  .ofBytes (.flatten (List.replicate 128 [0x24, 0xa1] ++ List.replicate 128 [0x12, 0x51])) none

/-- What is left of the source after the primes. -/
def Script.eightBitRest : Script := ⟨Script.eightBitParams.pending.drop 16, none, 16⟩

/-- The source has the primes as starting points, so the search for them ends at once. -/
theorem LocalParams.drawPrimes_eightBit :
    drawPrimes (P := .eightBit) 1 (drawSafePrime 1 8 1) Script.eightBitParams =
      (.ok (⟨167, by decide⟩, ⟨227, by decide⟩), Script.eightBitRest) := by
  have hsafe : isSafePrime 167 = true :=
    isSafePrime_of_prime (by decide) (by decide) (by norm_num) (by norm_num) (by decide +kernel)
  have hsafe' : isSafePrime 227 = true :=
    isSafePrime_of_prime (by decide) (by decide) (by norm_num) (by norm_num) (by decide +kernel)
  let s : Script := ⟨Script.eightBitParams.pending.drop 8, none, 8⟩
  have hP : (drawSafePrime 1 8 1 : Draw Script GenerationError _) .eightBitParams =
      (.ok ⟨167, by decide⟩, s) := drawSafePrime_of_drawWords (w := 167) rfl rfl (by decide) hsafe
  have hQ : (drawSafePrime 1 8 1 : Draw Script GenerationError _) s =
      (.ok ⟨227, by decide⟩, Script.eightBitRest) :=
    drawSafePrime_of_drawWords (w := 227) rfl rfl (by decide) hsafe'
  have hm : modulusOf? (P := .eightBit) ⟨167, by decide⟩ ⟨227, by decide⟩ =
      some LocalParams.eightBit.modulus := by decide +kernel
  exact drawPrimes_of_drawPrime hP hQ hm

theorem LocalParams.random_eightBit : ∃ s',
    LocalParams.random 1 Script.eightBitParams = (.ok LocalParams.eightBit, s') := by
  have hresult : (ofSafePrimes (P := .eightBit) 1 ⟨167, by decide⟩ ⟨227, by decide⟩
      Script.eightBitRest).1 = .ok .eightBit := by decide +kernel
  obtain ⟨s', hpick⟩ := Draw.exists_eq_ok hresult
  exact ⟨s', (Draw.bind_ok drawPrimes_eightBit).trans hpick⟩

/-- The round of a party all of whose responses are zero. -/
def FirstRound.eightBit : FirstRound .eightBit where
  ownIdx := ⟨1⟩
  params := .eightBit
  announcement := {
    paillierModulus := ⟨40001, by decide⟩
    modulus := LocalParams.eightBit.modulus
    h1 := LocalParams.eightBit.h1
    h2 := LocalParams.eightBit.h2
    firstProof := (Proof.uniform ⟨28557, by decide⟩ ⟨0, by decide⟩ : Proof 1).toWire
    secondProof := (Proof.uniform ⟨33901, by decide⟩ ⟨0, by decide⟩ : Proof 1).toWire }

/-- An honest party whose two proofs fail. -/
theorem FirstRound.verifySlot_start_iff_eightBit :
    ∃ s' t' : Script, LocalParams.random 1 Script.eightBitParams = (.ok .eightBit, s') ∧
      FirstRound.start 1 ⟨1⟩ .eightBit ⟨40001, by decide⟩ Script.eightBitNonces =
        (.ok .eightBit, t') ∧
      ∀ slot, FirstRound.eightBit.announcement.verifySlot slot = false := by
  obtain ⟨s', hparams⟩ := LocalParams.random_eightBit
  rcases hstart : FirstRound.start 1 ⟨1⟩ .eightBit ⟨40001, by decide⟩ Script.eightBitNonces
    with ⟨round, t'⟩
  have hround : round = .ok .eightBit := (congrArg Prod.fst hstart).symm.trans (by decide +kernel)
  subst hround
  refine ⟨s', t', hparams, rfl, fun slot => Bool.eq_false_of_not_eq_true fun hv => ?_⟩
  have hprime : ∀ u v u', (drawSafePrime 1 8 1 : Draw Script GenerationError _) u = (.ok v, u') →
      v.val.Prime :=
    fun u v u' h => (drawSafePrime_prime (by decide) (by decide) h).1
  rcases ((verifySlot_start_iff hprime hparams hstart).1 slot).mp hv with hcoprime | hpos
  · exact absurd hcoprime (by decide +kernel)
  · exact absurd (hpos ⟨0, by decide⟩) (by cases slot <;> decide +kernel)

end DlogProof
