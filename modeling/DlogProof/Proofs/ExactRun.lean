import DlogProof.Entropy.Script
import DlogProof.Proofs.HonestRound
import DlogProof.Proofs.ProverResult

namespace DlogProof

variable {limbs : ℕ} {σ : Type} [EntropySource σ]

/-- A run that cuts the stream into blocks, up to the one of the last nonce, and takes the nonces
from all the blocks that yield one, in order. -/
structure ExactRun (digest : Xof) (s : Statement limbs) (w : Witness limbs) (t : σ)
    (blocks : List (List UInt8)) (nonce : Fin iterations → ℕ) (proof : Proof limbs) (t' : σ) :
    Prop where
  granted : Grants (blockLength (bitLength w.order)) t blocks t'
  nonces : yieldedValues w.order blocks = List.ofFn nonce
  ends : EndsInYield w.order blocks
  follows : proof.Follows digest s w nonce

section Runs

variable {digest : Xof} {fuel : ℕ} {s : Statement limbs} {w w' : Witness limbs}
  {proof : Proof limbs} {t t' : σ}

/-- A run that gives a proof is exact. The sums that it takes do not overflow, as the order leaves a
bit to spare. -/
theorem exists_exactRun (h : prove digest fuel s w t = (.ok proof, t')) :
    ∃ blocks nonce, ExactRun digest s w t blocks nonce proof t' ∧ ∀ i,
      nonce i + w.exponent.val % w.order < 2 ^ Uint.bitWidth limbs ∧
        (proof.response i).val < w.order := by
  have hresult := (ProverResult.of_prove h).resolve_right fun hstop => by cases hstop.1
  cases hresult with
  | @made nonce _ _ hinputs hsearch hfollows =>
    have hspare := two_mul_order_lt hinputs
    have horder : 0 < w.order := by
      have hlow := (inputError?_eq_none_iff.mp hinputs).2.1
      omega
    generalize hnonces : List.ofFn nonce = values at hsearch
    cases hsearch with
    | found hgrant _ hlast =>
      refine ⟨_, nonce, ⟨hgrant, hnonces.symm, hlast, hfollows⟩, fun i => ⟨?_, ?_⟩⟩
      · have hnonce : nonce i < w.order :=
          (mem_yieldedValues (hnonces ▸ List.mem_ofFn.mpr ⟨i, rfl⟩)).2
        have hx : w.exponent.val % w.order < w.order := Nat.mod_lt _ horder
        omega
      · rw [hfollows.response]
        exact Nat.mod_lt _ horder

/-- The witness matters only through the order and through the exponent modulo the order. -/
theorem prove_congr (horder : w'.order = w.order)
    (hx : w'.exponent.val ≡ w.exponent.val [MOD w.order]) :
    (prove digest fuel s w' : Draw σ GenerationError _) = prove digest fuel s w := by
  have hgroup : w'.groupOrder = w.groupOrder := by
    rw [Witness.order, Witness.order] at horder
    rw [Witness.groupOrder, Witness.groupOrder, Uint.checkedMul, Uint.checkedMul, horder]
  have hinputs : Prover.ofInputs s w' = Prover.ofInputs s w := by
    rw [Prover.ofInputs, Prover.ofInputs, hgroup]
    cases hg : w.groupOrder with
    | error e => rfl
    | ok m =>
      have hrem : w'.exponent.rem m = w.exponent.rem m := by
        apply Uint.ext_val
        show w'.exponent.val % m.val = w.exponent.val % m.val
        rw [(Witness.groupOrder_eq_ok_iff.mp hg).1]
        exact hx
      simp only [Except.map, hrem]
  rw [prove, prove, hinputs]

end Runs

/-- The blocks of a script that no sponge continues are cut off the front of its bytes. -/
theorem Grants.flatten_append_pending {n : ℕ} {s s' : Script} {blocks : List (List UInt8)}
    (h : Grants n s blocks s') (hs : s.sponge = none) :
    blocks.flatten ++ s'.pending = s.pending := by
  induction h with
  | nil s => rfl
  | @cons s u s' block blocks hreq _ ih =>
    have hfill : s.fill n = s := by
      rw [Script.fill, hs]
    change Script.request n s = _ at hreq
    rw [Script.request, hfill] at hreq
    split_ifs at hreq with hn
    · cases hreq
      rw [List.flatten_cons, List.append_assoc, ih hs]
      exact List.take_append_drop n s.pending
    · cases hreq

/-- Every run that gives a proof is exact, with sums that do not overflow, and gives the same proof
for all witnesses that are congruent modulo the order. The two proofs of a party come from one
stream: the blocks for the second proof follow those for the first, and none of them is used for two
nonces. -/
theorem runs_exact {σ : Type} [EntropySource σ] :
    (∀ {limbs : ℕ} (digest : Xof) (fuel : ℕ) (s : Statement limbs) (w : Witness limbs)
        (proof : Proof limbs) (t t' : σ), prove digest fuel s w t = (.ok proof, t') →
      (∃ blocks nonce, ExactRun digest s w t blocks nonce proof t' ∧ ∀ i,
        nonce i + w.exponent.val % w.order < 2 ^ Uint.bitWidth limbs ∧
          (proof.response i).val < w.order) ∧
      ∀ w' : Witness limbs, w'.order = w.order →
        w'.exponent.val ≡ w.exponent.val [MOD w.order] →
          prove digest fuel s w' t = (.ok proof, t')) ∧
    ∀ {P : Params} (fuel : ℕ) (ownIdx : PartyIdx) (params : LocalParams P)
        (paillierModulus : P.Integer) (round : FirstRound P) (t t' : σ),
      FirstRound.start fuel ownIdx params paillierModulus t = (.ok round, t') →
        ∃ first second u blocks blocks' nonce nonce',
          round.announcement.firstProof = first.toWire ∧
          round.announcement.secondProof = second.toWire ∧
          ExactRun P.digest params.statement params.witness t blocks nonce first u ∧
          ExactRun P.digest params.inverseStatement params.inverseWitness u blocks' nonce' second
            t' ∧
          Grants (blockLength (bitLength params.witness.order)) t (blocks ++ blocks') t' ∧
          yieldedValues params.witness.order (blocks ++ blocks') =
            List.ofFn nonce ++ List.ofFn nonce' := by
  constructor
  · intro limbs digest fuel s w proof t t' h
    refine ⟨exists_exactRun h, fun w' horder hx => ?_⟩
    rw [prove_congr horder hx]
    exact h
  · intro P fuel ownIdx params paillierModulus round t t' h
    obtain ⟨-, first, second, u, hfirst, hsecond, hwire, hwire'⟩ := FirstRound.start_runs h
    obtain ⟨blocks, nonce, hrun, -⟩ := exists_exactRun hfirst
    obtain ⟨blocks', nonce', hrun', -⟩ := exists_exactRun hsecond
    refine ⟨first, second, u, blocks, blocks', nonce, nonce', hwire, hwire', hrun, hrun',
      hrun.granted.append hrun'.granted, ?_⟩
    rw [yieldedValues_append, hrun.nonces]
    exact congrArg _ hrun'.nonces

/-- A run whose first byte is rejected, with an exponent above the order, and the two runs of a
party. -/
theorem runs_exact_eightBit :
    (∃ t' : Script, prove (Xof.constant fun _ => true) 2 (.modSeven ⟨4, by decide⟩)
        ⟨⟨4, by decide⟩, ⟨3, by decide⟩, ⟨1, by decide⟩⟩
        (Script.ofBytes (3 :: List.replicate 128 2) none) =
      (.ok (.uniform ⟨4, by decide⟩ ⟨0, by decide⟩ : Proof 1), t')) ∧
    ∃ (blocks : List (List UInt8)) (t' : Script),
      FirstRound.start 1 ⟨1⟩ .eightBit ⟨40001, by decide⟩ Script.eightBitNonces =
          (.ok .eightBit, t') ∧
        blocks.flatten ++ t'.pending = Script.eightBitNonces.pending ∧
        (yieldedValues 9379 blocks).length = 256 := by
  constructor
  · rcases hrun : prove (Xof.constant fun _ => true) 2 (.modSeven ⟨4, by decide⟩)
        ⟨⟨1, by decide⟩, ⟨3, by decide⟩, ⟨1, by decide⟩⟩
        (Script.ofBytes (3 :: List.replicate 128 2) none) with ⟨r, t'⟩
    have hr : r = .ok (.uniform ⟨4, by decide⟩ ⟨0, by decide⟩) :=
      (congrArg Prod.fst hrun).symm.trans (by decide +kernel)
    subst hr
    exact ⟨t', (runs_exact.1 _ _ _ _ _ _ _ hrun).2 _ rfl rfl⟩
  · rcases hstart : FirstRound.start 1 ⟨1⟩ .eightBit ⟨40001, by decide⟩ Script.eightBitNonces
      with ⟨round, t'⟩
    have hround : round = .ok .eightBit := (congrArg Prod.fst hstart).symm.trans (by decide +kernel)
    subst hround
    obtain ⟨_, _, _, blocks, blocks', nonce, nonce', -, -, -, -, hgrant, hvalues⟩ :=
      runs_exact.2 _ _ _ _ _ _ _ hstart
    refine ⟨blocks ++ blocks', t', rfl, hgrant.flatten_append_pending rfl, ?_⟩
    change (yieldedValues LocalParams.eightBit.witness.order _).length = 256
    rw [hvalues, List.length_append, List.length_ofFn, List.length_ofFn]
    rfl

end DlogProof
