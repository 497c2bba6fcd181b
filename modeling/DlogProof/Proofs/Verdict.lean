import DlogProof.Keygen.Finalize
import DlogProof.Proofs.PartyMap

namespace DlogProof

variable {P : Params}

theorem leastParty?_eq_none_iff {is : List PartyIdx} : leastParty? is = none ↔ is = [] := by
  cases is with
  | nil => simp [leastParty?]
  | cons i is =>
    rw [leastParty?]
    cases leastParty? is with
    | none => simp
    | some j => by_cases h : j < i <;> simp [h]

theorem leastParty?_least {is : List PartyIdx} {i : PartyIdx} (h : leastParty? is = some i) :
    i ∈ is ∧ ∀ j ∈ is, ¬ j < i := by
  induction is generalizing i with
  | nil => cases h
  | cons k is ih =>
    rw [leastParty?] at h
    cases hl : leastParty? is with
    | none =>
      rw [hl] at h
      cases h
      obtain rfl := leastParty?_eq_none_iff.mp hl
      simpa using PartyIdx.lt_irrefl _
    | some j =>
      obtain ⟨hj, hmin⟩ := ih hl
      by_cases hlt : j < k
      · simp only [hl, if_pos hlt] at h
        cases h
        exact ⟨List.mem_cons_of_mem _ hj,
          List.forall_mem_cons.mpr ⟨PartyIdx.lt_asymm hlt, hmin⟩⟩
      · simp only [hl, if_neg hlt] at h
        cases h
        refine ⟨List.mem_cons_self,
          List.forall_mem_cons.mpr ⟨PartyIdx.lt_irrefl _, fun l hm hk => ?_⟩⟩
        by_cases hjk : j = k
        · exact hmin l hm (hjk ▸ hk)
        · exact hmin l hm (PartyIdx.lt_trans hk (PartyIdx.lt_of_not hlt hjk))

theorem leastParty?_eq_some_iff {is : List PartyIdx} {i : PartyIdx} :
    leastParty? is = some i ↔ i ∈ is ∧ ∀ j ∈ is, ¬ j < i := by
  refine ⟨leastParty?_least, fun ⟨hi, hmin⟩ => ?_⟩
  cases h : leastParty? is with
  | none =>
    obtain rfl := leastParty?_eq_none_iff.mp h
    cases hi
  | some j =>
    obtain ⟨hj, hmin'⟩ := leastParty?_least h
    rw [PartyIdx.eq_of_not_lt (hmin j hj) (hmin' i hi)]

theorem firstFailure?_eq_none_iff {slot : Slot} {verdicts : List Verdict} :
    firstFailure? slot verdicts = none ↔ ∀ v ∈ verdicts, v.slot = slot → v.ok = true := by
  rw [firstFailure?, leastParty?_eq_none_iff, List.map_eq_nil_iff, List.filter_eq_nil_iff]
  simp

theorem firstFailure?_eq_some_iff {slot : Slot} {verdicts : List Verdict} {party : PartyIdx} :
    firstFailure? slot verdicts = some party ↔
      ⟨party, slot, false⟩ ∈ verdicts ∧
        ∀ v ∈ verdicts, v.slot = slot → v.ok = false → ¬ v.party < party := by
  rw [firstFailure?, leastParty?_eq_some_iff]
  apply and_congr
  · simp only [List.mem_map, List.mem_filter, Bool.and_eq_true, decide_eq_true_iff,
      Bool.not_eq_true']
    constructor
    · rintro ⟨⟨_, _, _⟩, ⟨hv, rfl, rfl⟩, rfl⟩
      exact hv
    · intro hv
      exact ⟨_, ⟨hv, rfl, rfl⟩, rfl⟩
  · simp only [List.forall_mem_map, List.mem_filter, Bool.and_eq_true, decide_eq_true_iff,
      Bool.not_eq_true', and_imp]

/-- The blame does not depend on the order in which the verdicts arrive. -/
theorem firstFailure?_perm {slot : Slot} {verdicts verdicts' : List Verdict}
    (h : verdicts.Perm verdicts') : firstFailure? slot verdicts = firstFailure? slot verdicts' := by
  apply Option.ext
  intro party
  simp only [firstFailure?_eq_some_iff, h.mem_iff]

theorem FirstRound.conclude_perm (r : FirstRound P) (peers : PartyMap (Announcement P))
    {verdicts verdicts' : List Verdict} (h : verdicts.Perm verdicts') :
    r.conclude peers verdicts = r.conclude peers verdicts' := by
  simp only [conclude, h.length_eq, firstFailure?_perm h]

/-- Two jobs for each peer. -/
theorem verificationJobs_length (peers : List (PartyIdx × Announcement P)) :
    (verificationJobs peers).length = 2 * peers.length := by
  induction peers with
  | nil => rfl
  | cons e peers ih =>
    rw [verificationJobs, List.flatMap_cons, List.length_append] at *
    rw [ih, List.length_cons]
    simp only [List.length_cons, List.length_nil]
    omega

theorem mem_verdicts_iff {peers : List (PartyIdx × Announcement P)} {v : Verdict} :
    v ∈ (verificationJobs peers).map verdictOf ↔
      ∃ a, (v.party, a) ∈ peers ∧ v.ok = a.verifySlot v.slot := by
  obtain ⟨party, slot, ok⟩ := v
  simp only [verificationJobs, List.map_flatMap, List.mem_flatMap, List.map_cons, List.map_nil,
    verdictOf, List.mem_cons, List.not_mem_nil, or_false, Verdict.mk.injEq]
  constructor
  · rintro ⟨⟨i, a⟩, ha, ⟨rfl, rfl, rfl⟩ | ⟨rfl, rfl, rfl⟩⟩
    · exact ⟨a, ha, rfl⟩
    · exact ⟨a, ha, rfl⟩
  · rintro ⟨a, ha, rfl⟩
    refine ⟨(party, a), ha, ?_⟩
    cases slot <;> simp

end DlogProof
