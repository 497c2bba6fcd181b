import DlogProof.Proof.Verify
import DlogProof.Proofs.Challenge
import Mathlib.Data.Nat.ModEq
import Mathlib.Data.Bool.Basic

namespace DlogProof

variable {limbs : Nat}

namespace Proof

/-- The commitment of repetition `i`. -/
def commitment (proof : Proof limbs) (i : Fin iterations) : Uint limbs :=
  proof.commitments.get (i.cast proof.commitments_length.symm)

/-- The response of repetition `i`. -/
def response (proof : Proof limbs) (i : Fin iterations) : Uint limbs :=
  proof.responses.get (i.cast proof.responses_length.symm)

theorem commitments_getElem? (proof : Proof limbs) (i : Fin iterations) :
    proof.commitments[i.val]? = some (proof.commitment i) := by
  simp [commitment]

theorem responses_getElem? (proof : Proof limbs) (i : Fin iterations) :
    proof.responses[i.val]? = some (proof.response i) := by
  simp [response]

/-- The proof with one commitment and one response throughout. -/
def uniform (commitment response : Uint limbs) : Proof limbs where
  commitments := List.replicate iterations commitment
  responses := List.replicate iterations response
  commitments_length := List.length_replicate
  responses_length := List.length_replicate

/-- The protocol's conditions on a proof under the challenge bits `c`: an odd modulus, nonzero
residues only, and one equation for each repetition. -/
structure Accepted (proof : Proof limbs) (s : Statement limbs) (c : Fin iterations → Bool) :
    Prop where
  odd : s.modulus.val % 2 = 1
  base_range : 0 < s.base.val ∧ s.base.val < s.modulus.val
  power_range : 0 < s.power.val ∧ s.power.val < s.modulus.val
  commitment_range : ∀ i, 0 < (proof.commitment i).val ∧ (proof.commitment i).val < s.modulus.val
  equation : ∀ i, s.base.val ^ (proof.response i).val ≡
    (proof.commitment i).val * s.power.val ^ (c i).toNat [MOD s.modulus.val]

theorem forall_mem_commitments {proof : Proof limbs} {p : Uint limbs → Prop} :
    (∀ a ∈ proof.commitments, p a) ↔ ∀ i, p (proof.commitment i) := by
  constructor
  · intro h i
    exact h _ (List.get_mem _ _)
  · intro h a ha
    obtain ⟨i, rfl⟩ := List.get_of_mem ha
    exact h (i.cast proof.commitments_length)

theorem inRange_iff {proof : Proof limbs} {s : Statement limbs} {n : OddModulus limbs} :
    proof.inRange s n = true ↔
      (0 < s.base.val ∧ s.base.val < n.modulus.val) ∧
      (0 < s.power.val ∧ s.power.val < n.modulus.val) ∧
      ∀ i, 0 < (proof.commitment i).val ∧ (proof.commitment i).val < n.modulus.val := by
  rw [← forall_mem_commitments (p := fun a => 0 < a.val ∧ a.val < n.modulus.val)]
  simp only [inRange, Bool.and_eq_true, List.all_eq_true, OddModulus.isNonzeroResidue_iff,
    and_assoc]

/-- No repetition is skipped: the three lists have the same length. -/
theorem answers_iff_forall {proof : Proof limbs} {s : Statement limbs} {n : OddModulus limbs}
    {challenge : List Bool} (hl : challenge.length = iterations) :
    proof.answers s n challenge = true ↔
      ∀ i : Fin iterations,
        n.raise (n.powerTable s.base (Uint.bitWidth limbs)) (proof.response i) =
          if challenge.get (i.cast hl.symm) then n.mul (proof.commitment i) s.power
          else proof.commitment i := by
  have hc := proof.commitments_length
  have hr := proof.responses_length
  simp only [answers, List.all_eq_true]
  constructor
  · intro h i
    have hi : i.val < ((challenge.zip proof.commitments).zip proof.responses).length := by
      simp only [List.length_zip]
      omega
    simpa [commitment, response] using h _ (List.getElem_mem hi)
  · rintro h ⟨⟨c, a⟩, t⟩ hm
    obtain ⟨i, hi, he⟩ := List.getElem_of_mem hm
    have hi' : i < iterations := by
      simp only [List.length_zip] at hi
      omega
    have := h ⟨i, hi'⟩
    simp only [List.getElem_zip, Prod.mk.injEq] at he
    obtain ⟨⟨rfl, rfl⟩, rfl⟩ := he
    simpa [commitment, response] using this

/-- One comparison of residues is one equation of the protocol. A commitment below the modulus is
its own residue, so the two branches read alike. -/
theorem raise_eq_iff_modEq {n : OddModulus limbs} {base power a t : Uint limbs} (c : Bool)
    (ha : a.val < n.modulus.val) :
    n.raise (n.powerTable base (Uint.bitWidth limbs)) t = (if c then n.mul a power else a) ↔
      base.val ^ t.val ≡ a.val * power.val ^ c.toNat [MOD n.modulus.val] := by
  have hv : (n.powBounded base t (Uint.bitWidth limbs)).val = base.val ^ t.val % n.modulus.val :=
    n.powBounded_val_of_lt base t.val_lt
  have he : ∀ u : Uint limbs,
      n.raise (n.powerTable base (Uint.bitWidth limbs)) t = u ↔
        base.val ^ t.val % n.modulus.val = u.val := by
    intro u
    rw [n.raise_powerTable, ← hv, Uint.val_inj]
  cases c with
  | false =>
    simp only [he, Bool.false_eq_true, if_false, Bool.toNat_false, pow_zero, mul_one, Nat.ModEq,
      Nat.mod_eq_of_lt ha]
  | true => simp only [he, if_true, OddModulus.mul_val, Bool.toNat_true, pow_one, Nat.ModEq]

theorem verify_eq_true_iff {digest : Xof} {proof : Proof limbs} {s : Statement limbs} :
    proof.verify digest s = true ↔
      proof.Accepted s (s.challengeBit digest proof.commitments) := by
  unfold verify
  split
  · rename_i h
    have heven := OddModulus.ofUint?_eq_none_iff.mp h
    constructor
    · intro hf
      cases hf
    · intro ha
      have := ha.odd
      omega
  · rename_i n h
    have hn := OddModulus.ofUint?_eq_some_iff.mp h
    have hl := s.challenge_length digest proof.commitments
    rw [Bool.and_eq_true, inRange_iff, answers_iff_forall hl, ← hn]
    constructor
    · rintro ⟨⟨hb, hp, hc⟩, ha⟩
      refine ⟨hn ▸ n.odd, hb, hp, hc, fun i => ?_⟩
      have := (raise_eq_iff_modEq _ (hn ▸ (hc i).2)).mp (ha i)
      rwa [← hn] at this
    · intro ha
      refine ⟨⟨ha.base_range, ha.power_range, ha.commitment_range⟩, fun i => ?_⟩
      apply (raise_eq_iff_modEq _ (hn ▸ (ha.commitment_range i).2)).mpr
      rw [← hn]
      exact ha.equation i

end Proof

def Uint.ofByte (x : UInt8) : Uint 1 := ⟨x.toNat, Nat.lt_trans x.toNat_lt (by decide)⟩

/-- The statement that `power` is a power of two modulo seven, where two has order three. -/
def Statement.modSeven (power : Uint 1) : Statement 1 := ⟨⟨2, by decide⟩, power, ⟨7, by decide⟩⟩

end DlogProof
