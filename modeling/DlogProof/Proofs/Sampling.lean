import DlogProof.Proof.Prove

namespace DlogProof

variable {σ ε α : Type} {limbs : Nat}

/-- A run gives a value if its result is one, whatever state it leaves the source in. -/
theorem Draw.exists_eq_ok {x : Draw σ ε α} {s : σ} {a : α} (h : (x s).1 = .ok a) :
    ∃ s', x s = (.ok a, s') := ⟨(x s).2, Prod.ext h rfl⟩

/-- What a repeated step gives is what one run of the step gave. -/
theorem Draw.untilSome_eq_ok {step : Draw σ ε (Option α)} {fuel : Nat} {s s' : σ} {a : α}
    (h : step.untilSome fuel s = (.ok a, s')) : ∃ t, step t = (.ok (some a), s') := by
  induction fuel generalizing s with
  | zero => cases h
  | succ fuel ih =>
    rw [untilSome] at h
    obtain ⟨r, t, hr, hk⟩ := Draw.bind_eq_ok.mp h
    cases r with
    | some b =>
      cases hk
      exact ⟨s, hr⟩
    | none => exact ih hk

theorem sampleOfBlock_range {bound v : Uint limbs} {block : List UInt8}
    (h : sampleOfBlock bound block = .ok (some v)) : 0 < v.val ∧ v.val < bound.val := by
  unfold sampleOfBlock at h
  cases hb : (Uint.ofBytes (maskBlock bound.bits block) : Except EncodingError (Uint limbs)) with
  | error e =>
    rw [hb] at h
    cases h
  | ok u =>
    rw [hb] at h
    by_cases hu : 0 < u.val ∧ u.val < bound.val
    · simp only [Except.map, if_pos hu] at h
      cases h
      exact hu
    · simp only [Except.map, if_neg hu] at h
      cases h

variable [EntropySource σ]

theorem attemptBelow_range {bound v : Uint limbs} {s s' : σ}
    (h : attemptBelow bound s = (.ok (some v), s')) : 0 < v.val ∧ v.val < bound.val := by
  unfold attemptBelow at h
  obtain ⟨block, t, hb, hk⟩ := Draw.bind_eq_ok.mp h
  cases hs : sampleOfBlock bound block with
  | error e =>
    simp only [hs] at hk
    cases hk
  | ok sample =>
    simp only [hs] at hk
    cases hk
    exact sampleOfBlock_range hs

theorem drawPositiveBelow_range {bound v : Uint limbs} {fuel : Nat} {s s' : σ}
    (h : drawPositiveBelow fuel bound s = (.ok v, s')) : 0 < v.val ∧ v.val < bound.val := by
  unfold drawPositiveBelow at h
  split at h
  · cases h
  · obtain ⟨t, ht⟩ := Draw.untilSome_eq_ok h
    exact attemptBelow_range ht

theorem drawNonces_range {bound : Uint limbs} {fuel count : Nat} {s s' : σ}
    {nonces : List (Uint limbs)} (h : drawNonces fuel bound count s = (.ok nonces, s')) :
    nonces.length = count ∧ ∀ a ∈ nonces, 0 < a.val ∧ a.val < bound.val := by
  induction count generalizing s nonces with
  | zero =>
    cases h
    exact ⟨rfl, by simp⟩
  | succ count ih =>
    rw [drawNonces] at h
    obtain ⟨a, t, ha, hk⟩ := Draw.bind_eq_ok.mp h
    obtain ⟨rest, t', hr, hp⟩ := Draw.bind_eq_ok.mp hk
    cases hp
    obtain ⟨hl, hmem⟩ := ih hr
    exact ⟨congrArg (· + 1) hl, List.forall_mem_cons.mpr ⟨drawPositiveBelow_range ha, hmem⟩⟩

end DlogProof
