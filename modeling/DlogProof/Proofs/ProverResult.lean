import DlogProof.Proofs.NonceSearch
import DlogProof.Proofs.Prover
import Mathlib.Data.List.OfFn

namespace DlogProof

variable {limbs : ℕ}

/-- The order of the base as an integer of any size. -/
def Witness.order (w : Witness limbs) : ℕ := w.p.val * w.q.val

/-- The first check that the inputs of the prover fail. -/
def inputError? (s : Statement limbs) (w : Witness limbs) : Option GenerationError :=
  if s.modulus.val % 2 = 0 then some .invalidModulus
  else if 2 ^ (Uint.bitWidth limbs - 1) ≤ w.order then some .groupOrderTooLarge
  else if w.order = 0 then some .zeroGroupOrder
  else if w.order = 1 then some (.sampling .emptyRange)
  else none

/-- Whether a proof is what the protocol gives for the nonces when it is computed with integers of
any size. -/
structure Proof.Follows (digest : Xof) (s : Statement limbs) (w : Witness limbs)
    (nonce : Fin iterations → ℕ) (proof : Proof limbs) : Prop where
  commitment : ∀ i, (proof.commitment i).val = s.base.val ^ nonce i % s.modulus.val
  response : ∀ i, (proof.response i).val =
    (nonce i + (s.challengeBit digest proof.commitments i).toNat * w.exponent.val) % w.order

/-- What the prover gives, and the state that it leaves the source in. Nothing is drawn for inputs
that fail a check. -/
inductive ProverResult {σ : Type} [EntropySource σ] (digest : Xof) (s : Statement limbs)
    (w : Witness limbs) (t : σ) : Except (Stop GenerationError) (Proof limbs) → σ → Prop
  | rejected {e : GenerationError} : inputError? s w = some e →
      ProverResult digest s w t (.error (.failed e)) t
  | refused {reason : String} {t' : σ} : inputError? s w = none →
      NonceSearch w.order iterations t (.error reason) t' →
        ProverResult digest s w t (.error (.failed (.sampling (.source reason)))) t'
  | made {nonce : Fin iterations → ℕ} {proof : Proof limbs} {t' : σ} : inputError? s w = none →
      NonceSearch w.order iterations t (.ok (List.ofFn nonce)) t' →
        proof.Follows digest s w nonce → ProverResult digest s w t (.ok proof) t'

section Inputs

variable {s : Statement limbs} {w : Witness limbs}

theorem inputError?_eq_none_iff : inputError? s w = none ↔
    s.modulus.val % 2 = 1 ∧ 2 ≤ w.order ∧ w.order < 2 ^ (Uint.bitWidth limbs - 1) := by
  unfold inputError?
  constructor
  · intro h
    split_ifs at h
    omega
  · rintro ⟨hodd, hlow, hhigh⟩
    rw [if_neg (by omega), if_neg (by omega), if_neg (by omega), if_neg (by omega)]

/-- The order of accepted inputs leaves a bit to spare. -/
theorem two_mul_order_lt (h : inputError? s w = none) : 2 * w.order < 2 ^ Uint.bitWidth limbs := by
  obtain ⟨-, hlow, hhigh⟩ := inputError?_eq_none_iff.mp h
  have hwidth : Uint.bitWidth limbs ≠ 0 := by
    intro hzero
    rw [hzero, Nat.zero_sub, pow_zero] at hhigh
    omega
  rw [← mul_pow_sub_one hwidth]
  omega

/-- There is no odd number without a limb. -/
theorem OddModulus.bitWidth_pos (n : OddModulus limbs) : 0 < Uint.bitWidth limbs := by
  by_contra hzero
  have hlt := n.modulus.val_lt
  have hpos := n.pos
  rw [Uint.bitWidth] at hzero
  rw [Nat.eq_zero_of_not_pos hzero] at hlt
  omega

/-- A product that overflows and one that leaves no bit to spare are refused alike. -/
theorem Witness.groupOrder_eq_tooLarge (hwidth : 0 < Uint.bitWidth limbs)
    (h : 2 ^ (Uint.bitWidth limbs - 1) ≤ w.order) :
    w.groupOrder = .error .groupOrderTooLarge := by
  rw [groupOrder]
  cases hproduct : w.p.checkedMul w.q with
  | none => rfl
  | some m =>
    have hm : m.val = w.order := Uint.ofNat?_eq_some_iff.mp hproduct
    have hbits : ¬ m.bits ≤ Uint.bitWidth limbs - 1 := by
      rw [Uint.bits_le_iff]
      omega
    dsimp only
    rw [if_pos (by omega)]

theorem Witness.groupOrder_eq_zero (hwidth : 0 < Uint.bitWidth limbs) (h : w.order = 0) :
    w.groupOrder = .error .zeroGroupOrder := by
  let zero : Uint limbs := ⟨0, Nat.two_pow_pos _⟩
  have hproduct : w.p.checkedMul w.q = some zero := Uint.ofNat?_eq_some_iff.mpr h.symm
  have hbits : zero.bits ≤ 0 := Uint.bits_le_iff.mpr (Nat.two_pow_pos 0)
  rw [groupOrder, hproduct]
  dsimp only
  rw [if_neg (by omega), if_pos rfl]

/-- The prover works with every other order. -/
theorem Prover.exists_checked (n : OddModulus limbs) (hn : s.modulus = n.modulus)
    (hpos : 0 < w.order) (hlt : w.order < 2 ^ (Uint.bitWidth limbs - 1)) :
    ∃ prover : Prover limbs, prover.Checked s w ∧ prover.order.val = w.order := by
  have hwidth := n.bitWidth_pos
  have hfit : w.order < 2 ^ (64 * limbs) :=
    hlt.trans_le (Nat.pow_le_pow_right (by decide) (Nat.sub_le _ _))
  let order : Uint limbs := ⟨w.order, hfit⟩
  have hbits : order.bits ≤ Uint.bitWidth limbs - 1 := Uint.bits_le_iff.mpr hlt
  exact ⟨⟨n, order, w.exponent.rem order⟩, ⟨hn, rfl, hpos, hbits.trans_lt (by omega), rfl⟩, rfl⟩

end Inputs

namespace Prover

variable {prover : Prover limbs} {digest : Xof} {s : Statement limbs} {w : Witness limbs}
  {proof : Proof limbs}

/-- Nothing that a run takes for granted fails: no sum overflows, and a proof has as many
commitments and responses as there are nonces. -/
theorem Checked.exists_complete?_eq_some (h : prover.Checked s w) {nonces : List (Uint limbs)}
    (hlen : nonces.length = iterations) (hn : ∀ a ∈ nonces, a.val < prover.order.val) :
    ∃ proof, prover.complete? digest s nonces = some proof := by
  let response (pair : Uint limbs × Bool) : Uint limbs :=
    prover.order.residue (pair.1.val + pair.2.toNat * prover.exponent.val) h.order_pos
  let commitments := prover.commitments s nonces
  let pairs := nonces.zip (s.challenge digest commitments)
  have hrespond : pairs.map (fun pair => prover.respond? pair.1 pair.2) =
      (pairs.map response).map some := by
    rw [List.map_map]
    apply List.map_congr_left
    intro pair hpair
    exact (h.respond?_eq_some_iff (hn pair.1 (List.of_mem_zip hpair).1)).mpr rfl
  have hcommitments : commitments.length = iterations := by
    rw [← hlen]
    exact List.length_map ..
  have hresponses : (pairs.map response).length = iterations := by
    rw [List.length_map, List.length_zip, hlen, s.challenge_length, Nat.min_self]
  exact ⟨⟨commitments, pairs.map response, hcommitments, hresponses⟩,
    complete?_eq_some_iff.mpr ⟨rfl, hrespond⟩⟩

theorem Checked.exists_made (h : prover.Checked s w) {nonce : Fin iterations → Uint limbs}
    (hn : ∀ i, (nonce i).val < prover.order.val) :
    ∃ proof, prover.complete? digest s (List.ofFn nonce) = some proof ∧
      prover.Made digest s nonce proof := by
  obtain ⟨proof, hproof⟩ : ∃ proof, prover.complete? digest s (List.ofFn nonce) = some proof :=
    h.exists_complete?_eq_some List.length_ofFn (List.forall_mem_ofFn_iff.mpr hn)
  exact ⟨proof, hproof, h.made_of_complete? hn hproof⟩

/-- Reducing the exponent first does not change the responses. -/
theorem Made.follows {nonce : Fin iterations → Uint limbs} (h : prover.Made digest s nonce proof)
    (hcheck : prover.Checked s w) : proof.Follows digest s w fun i => (nonce i).val where
  commitment := h.commitment
  response i := by
    rw [h.response_val hcheck, Witness.order, ← hcheck.order_eq]

end Prover

/-- The nonces determine the proof, as the commitments determine the challenge. -/
theorem Proof.Follows.unique {digest : Xof} {s : Statement limbs} {w : Witness limbs}
    {nonce : Fin iterations → ℕ} {proof proof' : Proof limbs} (h : proof.Follows digest s w nonce)
    (h' : proof'.Follows digest s w nonce) : proof = proof' := by
  have hcommitments : proof.commitments = proof'.commitments := by
    refine List.ext_get (proof.commitments_length.trans proof'.commitments_length.symm) ?_
    intro j hj _
    let i : Fin iterations := ⟨j, proof.commitments_length ▸ hj⟩
    exact Uint.ext_val ((h.commitment i).trans (h'.commitment i).symm)
  have hresponses : proof.responses = proof'.responses := by
    refine List.ext_get (proof.responses_length.trans proof'.responses_length.symm) ?_
    intro j hj _
    let i : Fin iterations := ⟨j, proof.responses_length ▸ hj⟩
    have hresponse := h.response i
    rw [hcommitments] at hresponse
    exact Uint.ext_val (hresponse.trans (h'.response i).symm)
  cases proof
  cases proof'
  cases hcommitments
  cases hresponses
  rfl

section Runs

variable {σ : Type} [EntropySource σ] {digest : Xof} {fuel : ℕ} {s : Statement limbs}
  {w : Witness limbs} {e : GenerationError} {t t' : σ}

theorem prove_of_ofInputs_error (h : Prover.ofInputs s w = .error e) :
    prove digest fuel s w t = (.error (.failed e), t) := by
  rw [prove, h]
  rfl

theorem prove_of_groupOrder_error (n : OddModulus limbs) (hn : s.modulus = n.modulus)
    (h : w.groupOrder = .error e) : prove digest fuel s w t = (.error (.failed e), t) := by
  apply prove_of_ofInputs_error
  rw [Prover.ofInputs, OddModulus.ofUint?_eq_some_iff.mpr hn]
  dsimp only
  rw [h]
  rfl

theorem drawNonces_emptyRange {bound : Uint limbs} {count : ℕ} (h : bound.bits < 2) :
    drawNonces fuel bound (count + 1) t = (.error (.failed .emptyRange), t) := by
  have hfirst : drawPositiveBelow fuel bound t = (.error (.failed .emptyRange), t) := by
    rw [drawPositiveBelow, if_pos h]
    rfl
  rw [drawNonces, Draw.bind_error hfirst]

theorem prove_of_draw_error {prover : Prover limbs} {stop : Stop SamplingError}
    (hcheck : prover.Checked s w)
    (hdraw : drawNonces fuel prover.order iterations t = (.error stop, t')) :
    prove digest fuel s w t = (.error (stop.map .sampling), t') := by
  have hstop : (drawNonces fuel prover.order iterations).mapError GenerationError.sampling t =
      (.error (stop.map .sampling), t') := by
    rw [Draw.mapError, Draw.mapStop, hdraw]
  rw [prove, Prover.ofInputs_eq_ok_iff.mpr hcheck]
  exact Draw.bind_error hstop

theorem prove_of_draw_ok {prover : Prover limbs} {nonces : List (Uint limbs)}
    (hcheck : prover.Checked s w)
    (hdraw : drawNonces fuel prover.order iterations t = (.ok nonces, t')) :
    ∃ (nonce : Fin iterations → ℕ) (proof : Proof limbs),
      nonces.map Uint.val = List.ofFn nonce ∧ proof.Follows digest s w nonce ∧
        prove digest fuel s w t = (.ok proof, t') := by
  obtain ⟨nonce, rfl, hrange⟩ := drawNonces_eq_ok hdraw
  obtain ⟨proof, hcomplete, hmade⟩ : ∃ proof, prover.complete? digest s (List.ofFn nonce) =
      some proof ∧ prover.Made digest s nonce proof := hcheck.exists_made fun i => (hrange i).2
  refine ⟨_, proof, List.map_ofFn .., hmade.follows hcheck, ?_⟩
  rw [prove, Prover.ofInputs_eq_ok_iff.mpr hcheck]
  refine (Draw.bind_ok (Draw.mapError_eq_ok.mpr hdraw)).trans ?_
  rw [hcomplete]
  rfl

/-- Each check comes before the later ones, and all of them before the first byte is drawn. -/
theorem prove_of_inputError (h : inputError? s w = some e) :
    prove digest fuel s w t = (.error (.failed e), t) := by
  by_cases heven : s.modulus.val % 2 = 0
  · rw [inputError?, if_pos heven] at h
    cases h
    apply prove_of_ofInputs_error
    rw [Prover.ofInputs, OddModulus.ofUint?_eq_none_iff.mpr heven]
  · let n : OddModulus limbs := ⟨s.modulus, by omega⟩
    have hwidth := n.bitWidth_pos
    rw [inputError?, if_neg heven] at h
    split_ifs at h with hlarge hzero hone
    · cases h
      exact prove_of_groupOrder_error n rfl (Witness.groupOrder_eq_tooLarge hwidth hlarge)
    · cases h
      exact prove_of_groupOrder_error n rfl (Witness.groupOrder_eq_zero hwidth hzero)
    · -- An order of one passes for the prover, but leaves no number to draw.
      cases h
      obtain ⟨prover, hcheck, horder⟩ :=
        Prover.exists_checked n rfl (by omega) (Nat.lt_of_not_le hlarge)
      have hbits : prover.order.bits ≤ 1 := Uint.bits_le_iff.mpr (by omega)
      exact prove_of_draw_error hcheck (drawNonces_emptyRange (by omega))

/-- Every run gives the result, unless it has used up the attempts that it was allowed. -/
theorem ProverResult.of_prove {r : Except (Stop GenerationError) (Proof limbs)}
    (h : prove digest fuel s w t = (r, t')) :
    ProverResult digest s w t r t' ∨
      r = .error .outOfFuel ∧ inputError? s w = none ∧
        StillSearching w.order iterations fuel t t' := by
  cases hinputs : inputError? s w with
  | some e =>
    cases (prove_of_inputError hinputs).symm.trans h
    exact Or.inl (.rejected hinputs)
  | none =>
    obtain ⟨hodd, hlow, hhigh⟩ := inputError?_eq_none_iff.mp hinputs
    obtain ⟨prover, hcheck, horder⟩ :=
      Prover.exists_checked (s := s) ⟨s.modulus, hodd⟩ rfl (by omega) hhigh
    have hbits : ¬ prover.order.bits ≤ 1 := by
      rw [Uint.bits_le_iff]
      omega
    rcases hdraw : drawNonces fuel prover.order iterations t with ⟨drawn, u⟩
    have hsearch := SearchResult.of_drawNonces (by omega) hdraw
    rw [horder] at hsearch
    cases hsearch with
    | refused hrefused =>
      cases (prove_of_draw_error hcheck hdraw).symm.trans h
      exact Or.inl (.refused hinputs hrefused)
    | unfinished hstill =>
      cases (prove_of_draw_error hcheck hdraw).symm.trans h
      exact Or.inr ⟨rfl, rfl, hstill⟩
    | found hfound =>
      obtain ⟨nonce, proof, hvalues, hfollows, hproof⟩ := prove_of_draw_ok hcheck hdraw
      cases hproof.symm.trans h
      exact Or.inl (.made hinputs (hvalues ▸ hfound) hfollows)

theorem ProverResult.unique {r r' : Except (Stop GenerationError) (Proof limbs)} {u u' : σ}
    (h : ProverResult digest s w t r u) (h' : ProverResult digest s w t r' u') :
    r = r' ∧ u = u' := by
  cases h with
  | rejected herror =>
    cases h' with
    | rejected herror' =>
      cases herror.symm.trans herror'
      exact ⟨rfl, rfl⟩
    | refused hnone _ => cases herror.symm.trans hnone
    | made hnone _ _ => cases herror.symm.trans hnone
  | refused hnone hsearch =>
    cases h' with
    | rejected herror => cases hnone.symm.trans herror
    | refused _ hsearch' =>
      obtain ⟨hreason, rfl⟩ := hsearch.unique hsearch'
      cases hreason
      exact ⟨rfl, rfl⟩
    | made _ hsearch' _ => cases (hsearch.unique hsearch').1
  | made hnone hsearch hfollows =>
    cases h' with
    | rejected herror => cases hnone.symm.trans herror
    | refused _ hsearch' => cases (hsearch.unique hsearch').1
    | made _ hsearch' hfollows' =>
      obtain ⟨hnonces, rfl⟩ := hsearch.unique hsearch'
      obtain rfl := List.ofFn_injective (Except.ok.inj hnonces)
      rw [hfollows.unique hfollows']
      exact ⟨rfl, rfl⟩

/-- Enough attempts give the result. -/
theorem ProverResult.exists_fuel {r : Except (Stop GenerationError) (Proof limbs)}
    (h : ProverResult digest s w t r t') : ∃ fuel, prove digest fuel s w t = (r, t') := by
  have hends : ∃ fuel, ∀ u,
      ¬ (inputError? s w = none ∧ StillSearching w.order iterations fuel t u) := by
    cases h with
    | rejected herror => exact ⟨0, fun u hstill => by cases herror.symm.trans hstill.1⟩
    | refused _ hsearch => exact hsearch.exists_fuel.imp fun fuel hends u hstill => hends u hstill.2
    | made _ hsearch _ => exact hsearch.exists_fuel.imp fun fuel hends u hstill => hends u hstill.2
  -- With that many attempts a run gives some result, and there is only one.
  obtain ⟨fuel, hends⟩ := hends
  refine ⟨fuel, ?_⟩
  rcases hrun : prove digest fuel s w t with ⟨r', u⟩
  rcases of_prove hrun with hresult | ⟨-, hstill⟩
  · obtain ⟨rfl, rfl⟩ := h.unique hresult
    rfl
  · exact absurd hstill (hends u)

/-- What becomes of a run for any inputs and any source. Inputs that fail a check give the error of
the first such check, and leave the source alone. With all others, the run ends with the first
refusal of the source, or with a proof as soon as there are enough nonces. It goes on for ever only
if the source never refuses and never yields enough of them. -/
theorem prove_eq_iff_result (digest : Xof) (s : Statement limbs) (w : Witness limbs) (t : σ) :
    (∀ r t', ((∃ fuel, prove digest fuel s w t = (r, t')) ∧ r ≠ .error .outOfFuel) ↔
      ProverResult digest s w t r t') ∧
    (∀ fuel t', prove digest fuel s w t ≠ (.error .aborted, t')) ∧
    ((∃! result : Except (Stop GenerationError) (Proof limbs) × σ,
        ProverResult digest s w t result.1 result.2) ∨
      inputError? s w = none ∧ ∀ count, ∃ t', StillSearching w.order iterations count t t') := by
  refine ⟨fun r t' => ⟨?_, fun h => ⟨h.exists_fuel, ?_⟩⟩, fun fuel t' h => ?_, ?_⟩
  · rintro ⟨⟨fuel, h⟩, hfuel⟩
    exact (ProverResult.of_prove h).resolve_right fun hstill => hfuel hstill.1
  · rintro rfl
    cases h
  · rcases ProverResult.of_prove h with hresult | ⟨hstop, -⟩
    · cases hresult
    · cases hstop
  · by_cases hresult : ∃ r t', ProverResult digest s w t r t'
    · obtain ⟨r, t', h⟩ := hresult
      exact Or.inl ⟨(r, t'), h, fun _ h' => Prod.ext_iff.mpr (h'.unique h)⟩
    · have hstill : ∀ fuel, inputError? s w = none ∧
          StillSearching w.order iterations fuel t (prove digest fuel s w t).2 := fun fuel =>
        ((ProverResult.of_prove rfl).resolve_left fun h => hresult ⟨_, _, h⟩).2
      exact Or.inr ⟨(hstill 0).1, fun count => ⟨_, (hstill count).2⟩⟩

end Runs

end DlogProof
