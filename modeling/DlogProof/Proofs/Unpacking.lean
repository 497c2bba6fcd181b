import DlogProof.Proofs.ProverResult
import Mathlib.Data.Set.Function

namespace DlogProof

/-- A byte is determined by its bits. -/
theorem byte_ext {a b : UInt8}
    (h : ∀ r < 8, a.toNat.testBit (7 - r) = b.toNat.testBit (7 - r)) : a = b := by
  apply UInt8.toNat_inj.mp
  apply Nat.eq_of_testBit_eq
  intro j
  by_cases hj : j < 8
  · have hbit := h (7 - j) (by omega)
    rwa [Nat.sub_sub_self (by omega)] at hbit
  · -- Beyond the eighth bit there are only zeros.
    have hzero : ∀ c : UInt8, c.toNat.testBit j = false := fun c =>
      Nat.testBit_lt_two_pow (c.toNat_lt.trans_le (Nat.pow_le_pow_right Nat.two_pos (by omega)))
    rw [hzero, hzero]

section Unpacking

variable {k : ℕ} {bytes : List UInt8}

/-- Unpacking takes each bit from its place, also if it ends within a byte. -/
theorem unpackBits_eq_ofFn (h : (k + 7) / 8 ≤ bytes.length) :
    unpackBits k bytes = List.ofFn fun i : Fin k =>
      (bytes.get ⟨i.val / 8, by omega⟩).toNat.testBit (7 - i.val % 8) := by
  have hlength : (unpackBits k bytes).length = k := unpackBits_length (by omega)
  apply List.ext_getElem
  · rw [hlength, List.length_ofFn]
  · intro i hi _
    have hbit := unpackBits_getElem? bytes (hlength ▸ hi)
    rw [List.getElem?_eq_getElem hi, List.getElem?_eq_getElem (by omega), Option.map_some,
      Option.some.injEq] at hbit
    rw [hbit, List.getElem_ofFn]
    rfl

/-- Bit `r` of byte `j`. -/
theorem unpackBits_getElem?_byte {j r : ℕ} (hj : j < bytes.length) (hr : r < 8)
    (hk : 8 * j + r < k) :
    (unpackBits k bytes)[8 * j + r]? = some ((bytes.get ⟨j, hj⟩).toNat.testBit (7 - r)) := by
  have hdiv : (8 * j + r) / 8 = j := by omega
  have hmod : (8 * j + r) % 8 = r := by omega
  rw [unpackBits_getElem? bytes hk, hdiv, hmod, List.getElem?_eq_getElem hj]
  rfl

/-- If it ends with a byte, nothing of the bytes is lost. -/
theorem unpackBits_injOn (hk : 8 ∣ k) :
    Set.InjOn (unpackBits k) {bytes | bytes.length = k / 8} := by
  intro a ha b hb hab
  have hlength : a.length = k / 8 := ha
  apply List.ext_get (ha.trans hb.symm)
  intro j hj hj'
  apply byte_ext
  intro r hr
  have hlt : 8 * j + r < k := by omega
  have hbit := unpackBits_getElem?_byte hj hr hlt
  rw [hab, unpackBits_getElem?_byte hj' hr hlt] at hbit
  exact (Option.some.inj hbit).symm

end Unpacking

/-- No bit is lost between the hash and the repetitions. Unpacking gives as many bits as it is asked
for, each from its place, and whole bytes can be told from their bits. So there is a challenge bit
for every repetition, all repetitions count in the verdict on a proof, and for any nonces the prover
fills both halves of a proof, so that no run aborts. -/
theorem challenge_reaches_repetitions {limbs : ℕ} (digest : Xof) (s : Statement limbs) :
    (∀ (k : ℕ) (bytes : List UInt8) (h : (k + 7) / 8 ≤ bytes.length),
      unpackBits k bytes = List.ofFn fun i : Fin k =>
        (bytes.get ⟨i.val / 8, by omega⟩).toNat.testBit (7 - i.val % 8)) ∧
    (∀ k : ℕ, 8 ∣ k → Set.InjOn (unpackBits k) {bytes | bytes.length = k / 8}) ∧
    (∀ commitments : List (Uint limbs), (s.challenge digest commitments).length = iterations) ∧
    (∀ (proof : Proof limbs) (n : OddModulus limbs),
      proof.answers s n (s.challenge digest proof.commitments) = true ↔
        ∀ i, n.raise (n.powerTable s.base (Uint.bitWidth limbs)) (proof.response i) =
          if s.challengeBit digest proof.commitments i then n.mul (proof.commitment i) s.power
          else proof.commitment i) ∧
    ∀ w : Witness limbs,
      (∀ (prover : Prover limbs) (nonce : Fin iterations → Uint limbs),
        Prover.ofInputs s w = .ok prover → (∀ i, (nonce i).val < prover.order.val) →
          ∃ proof, prover.complete? digest s (List.ofFn nonce) = some proof ∧
            prover.Made digest s nonce proof) ∧
      ∀ (σ : Type) [EntropySource σ] (fuel : ℕ) (t t' : σ),
        prove digest fuel s w t ≠ (.error .aborted, t') := by
  refine ⟨fun k bytes => unpackBits_eq_ofFn, fun k => unpackBits_injOn, s.challenge_length digest,
    fun proof n => Proof.answers_iff_forall (s.challenge_length digest proof.commitments), ?_⟩
  intro w
  constructor
  · intro prover nonce h hnonce
    exact (Prover.ofInputs_eq_ok_iff.mp h).exists_made hnonce
  · intro σ _ fuel t t' hrun
    rcases ProverResult.of_prove hrun with hresult | ⟨hstop, -⟩
    · cases hresult
    · cases hstop

/-- Ten bits that end within the second byte, sixteen that do not, and nonces equal to the largest
number below the order. -/
theorem challenge_reaches_repetitions_modSeven :
    let s := Statement.modSeven ⟨4, by decide⟩
    let w : Witness 1 := ⟨⟨2, by decide⟩, ⟨3, by decide⟩, ⟨1, by decide⟩⟩
    let prover : Prover 1 := ⟨⟨s.modulus, by decide⟩, ⟨3, by decide⟩, ⟨2, by decide⟩⟩
    let nonce : Fin iterations → Uint 1 := fun _ => ⟨2, by decide⟩
    unpackBits 10 [0x81, 0x40] =
        [true, false, false, false, false, false, false, true, false, true] ∧
      Set.InjOn (unpackBits 16) {bytes | bytes.length = 2} ∧
      Prover.ofInputs s w = .ok prover ∧
      ∃ proof, prover.complete? .shake256 s (List.ofFn nonce) = some proof ∧
        prover.Made .shake256 s nonce proof := by
  intro s w prover nonce
  have hinputs : Prover.ofInputs s w = .ok prover :=
    Prover.ofInputs_eq_ok_iff.mpr ⟨rfl, rfl, by decide, by decide +kernel, by decide⟩
  obtain ⟨hbits, hinj, -, -, hprover⟩ := challenge_reaches_repetitions .shake256 s
  refine ⟨?_, hinj 16 (by decide), hinputs, ?_⟩
  · rw [hbits 10 [0x81, 0x40] (by decide)]
    decide
  · exact (hprover w).1 prover nonce hinputs fun _ => by decide

end DlogProof
