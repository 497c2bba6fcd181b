import DlogProof.Keygen.FirstRound
import DlogProof.Proofs.Generation
import DlogProof.Proofs.ProverResult

namespace DlogProof

/-- The ends of a computation that fails only if its source does: it reports the reason with which
the source has refused a request. -/
inductive Stop.Refused (σ : Type) [EntropySource σ] {ε : Type} (cause : String → ε) : Stop ε → Prop
  | refused {n : ℕ} {s s' : σ} {reason : String} :
      EntropySource.request n s = (.error reason, s') → Refused σ cause (.failed (cause reason))
  | outOfFuel : Refused σ cause .outOfFuel

theorem Stop.Refused.map {σ : Type} [EntropySource σ] {ε ε' : Type} {cause : String → ε}
    {stop : Stop ε} (f : ε → ε') (h : stop.Refused σ cause) :
    (stop.map f).Refused σ fun reason => f (cause reason) := by
  cases h with
  | refused hreq => exact .refused hreq
  | outOfFuel => exact .outOfFuel

/-- Whether a computation ends in one of the given ways whenever it gives no value. -/
def Draw.StopsOnly {σ ε α : Type} (x : Draw σ ε α) (p : Stop ε → Prop) : Prop :=
  ∀ s stop s', x s = (.error stop, s') → p stop

namespace Draw.StopsOnly

variable {σ ε ε' α β : Type} {p : Stop ε → Prop} {p' : Stop ε' → Prop} {x : Draw σ ε α}

theorem pure (a : α) : (Pure.pure a : Draw σ ε α).StopsOnly p := fun _ _ _ h => by cases h

theorem bind {f : α → Draw σ ε β} (hx : x.StopsOnly p)
    (hf : ∀ s a s', x s = (.ok a, s') → (f a).StopsOnly p) : (x >>= f).StopsOnly p := by
  intro s stop s'' h
  rcases hrun : x s with ⟨r, s'⟩
  cases r with
  | ok a =>
    rw [Draw.bind_ok hrun] at h
    exact hf s a s' hrun _ _ _ h
  | error e =>
    cases (Draw.bind_error hrun).symm.trans h
    exact hx _ _ _ hrun

theorem mapStop {f : Stop ε → Stop ε'} (h : ∀ stop, p stop → p' (f stop)) (hx : x.StopsOnly p) :
    (x.mapStop f).StopsOnly p' := by
  intro s stop s' hrun
  rw [Draw.mapStop] at hrun
  split at hrun
  · cases hrun
  · rename_i e u he
    cases hrun
    exact h _ (hx _ _ _ he)

theorem mapError [EntropySource σ] {cause : String → ε} (f : ε → ε')
    (hx : x.StopsOnly (Stop.Refused σ cause)) :
    (x.mapError f).StopsOnly (Stop.Refused σ fun reason => f (cause reason)) :=
  hx.mapStop fun _ h => h.map f

/-- A repeated step ends as one of its runs does, or has no attempts left. -/
theorem untilSome {step : Draw σ ε (Option α)} (hstep : step.StopsOnly p) (hp : p .outOfFuel)
    (fuel : ℕ) : (step.untilSome fuel).StopsOnly p := by
  induction fuel with
  | zero =>
    intro s stop s' h
    cases h
    exact hp
  | succ fuel ih =>
    refine hstep.bind fun s found s' _ => ?_
    cases found with
    | some a => exact .pure a
    | none => exact ih

theorem ofOption (h : p .aborted) (a : Option α) : (Draw.ofOption a : Draw σ ε α).StopsOnly p := by
  intro s stop s' hrun
  cases a with
  | some a => cases hrun
  | none =>
    cases hrun
    exact h

/-- Callers that do not expect a failure see none. -/
theorem orAbort {p' : Stop ε' → Prop} (haborted : p' .aborted) (hfuel : p' .outOfFuel)
    (x : Draw σ ε α) : (x.orAbort : Draw σ ε' α).StopsOnly p' := by
  have hall : x.StopsOnly fun _ => True := fun _ _ _ _ => trivial
  refine hall.mapStop fun stop _ => ?_
  cases stop with
  | outOfFuel => exact hfuel
  | failed _ => exact haborted
  | aborted => exact haborted

end Draw.StopsOnly

section Source

variable {σ : Type} [EntropySource σ] {limbs fuel : ℕ} {bound : Uint limbs}

theorem attemptBelow_stopsOnly :
    (attemptBelow bound : Draw σ _ _).StopsOnly (Stop.Refused σ SamplingError.source) := by
  intro s stop s' h
  rcases hreq : EntropySource.request (blockLength bound.bits) s with ⟨reason | block, u⟩
  · cases (attemptBelow_of_refused hreq).symm.trans h
    exact .refused hreq
  · obtain ⟨sample, -, hattempt⟩ := attemptBelow_of_granted hreq
    cases hattempt.symm.trans h

/-- Drawing from a range that is not empty fails only if the source does. -/
theorem drawPositiveBelow_stopsOnly (hbound : 2 ≤ bound.val) :
    (drawPositiveBelow fuel bound : Draw σ _ _).StopsOnly (Stop.Refused σ SamplingError.source) := by
  have hbits : ¬ bound.bits ≤ 1 := by
    rw [Uint.bits_le_iff]
    omega
  rw [drawPositiveBelow, if_neg (by omega)]
  exact attemptBelow_stopsOnly.untilSome .outOfFuel fuel

end Source

/-- The failure of a proof or of parameters for which the source gave no bytes. -/
def GenerationError.refused (reason : String) : GenerationError := .sampling (.source reason)

section Runs

variable {σ : Type} [EntropySource σ] {P : Params} {limbs fuel : ℕ}

theorem drawGenerator_stopsOnly {n : OddModulus P.limbs} (hn : 2 ≤ n.modulus.val) :
    (LocalParams.drawGenerator fuel n : Draw σ _ _).StopsOnly
      (Stop.Refused σ GenerationError.refused) := by
  refine .untilSome (.bind ?_ fun _ _ _ _ => .pure _) .outOfFuel fuel
  exact (drawPositiveBelow_stopsOnly hn).mapError GenerationError.sampling

theorem drawExponent_stopsOnly {n order : OddModulus P.limbs} {h1 : P.Integer}
    (horder : 2 ≤ order.modulus.val) :
    (LocalParams.drawExponent fuel n order h1 : Draw σ _ _).StopsOnly
      (Stop.Refused σ GenerationError.refused) := by
  refine .untilSome (.bind ?_ fun _ _ _ _ => .pure _) .outOfFuel fuel
  exact (drawPositiveBelow_stopsOnly horder).mapError GenerationError.sampling

/-- With inputs that pass the checks, only the source makes the prover fail. -/
theorem prove_stopsOnly {digest : Xof} {s : Statement limbs} {w : Witness limbs}
    (h : inputError? s w = none) :
    (prove digest fuel s w : Draw σ _ _).StopsOnly (Stop.Refused σ GenerationError.refused) := by
  intro t stop t' hrun
  rcases ProverResult.of_prove hrun with hresult | ⟨hfuel, -⟩
  · cases hresult with
    | rejected hinput => cases h.symm.trans hinput
    | refused _ hsearch =>
      cases hsearch with
      | refused _ _ hreq => exact .refused hreq
  · cases hfuel
    exact .outOfFuel

/-- A party whose inputs pass the checks fails only if the source does. -/
theorem FirstRound.start_stopsOnly {ownIdx : PartyIdx} {params : LocalParams P}
    {paillierModulus : P.Integer} (h : inputError? params.statement params.witness = none) :
    (start fuel ownIdx params paillierModulus : Draw σ _ _).StopsOnly
      (Stop.Refused σ fun reason => .ownSide (.generation (.refused reason))) := by
  have h' : inputError? params.inverseStatement params.inverseWitness = none := h
  refine .bind ((prove_stopsOnly h).mapError _) fun _ _ _ _ => ?_
  exact .bind ((prove_stopsOnly h').mapError _) fun _ _ _ _ => .pure _

end Runs

end DlogProof
