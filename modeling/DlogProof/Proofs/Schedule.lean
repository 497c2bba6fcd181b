import DlogProof.Proofs.Finalize

namespace DlogProof

open List

/-- Among verdicts on different proofs, only one is about a given proof. -/
theorem filter_eq_singleton {verdicts : List Verdict} {v : Verdict}
    (hn : verdicts.Pairwise fun v w => ¬ (w.party = v.party ∧ w.slot = v.slot))
    (hv : v ∈ verdicts) :
    (verdicts.filter fun w => w.party = v.party ∧ w.slot = v.slot) = [v] := by
  induction verdicts with
  | nil => cases hv
  | cons w verdicts ih =>
    obtain ⟨hw, hn⟩ := pairwise_cons.mp hn
    rcases mem_cons.mp hv with rfl | hv
    · have hrest : (verdicts.filter fun w => w.party = v.party ∧ w.slot = v.slot) = [] :=
        filter_eq_nil_iff.mpr fun u hu hk => hw u hu (of_decide_eq_true hk)
      rw [filter_cons_of_pos (by simp), hrest]
    · have hne : ¬ (w.party = v.party ∧ w.slot = v.slot) := fun hk =>
        hw v hv ⟨hk.1.symm, hk.2.symm⟩
      rw [filter_cons_of_neg (by simpa using hne), ih hn hv]

namespace FirstRound

variable {P : Params} {r : FirstRound P} {announcements : PartyMap (Announcement P)}

theorem party_of_mem_verdicts {i : PartyIdx} {a : Announcement P} {v : Verdict}
    (hv : v ∈ [(i, a, Slot.first), (i, a, Slot.second)].map verdictOf) : v.party = i := by
  obtain ⟨job, hjob, rfl⟩ := mem_map.mp hv
  simp only [mem_cons, not_mem_nil, or_false] at hjob
  rcases hjob with rfl | rfl <;> rfl

/-- No two jobs are about the same proof, because no two peers have the same index. -/
theorem verdicts_pairwise :
    (r.verdicts announcements).Pairwise fun v w => ¬ (w.party = v.party ∧ w.slot = v.slot) := by
  rw [verdicts, verificationJobs, map_flatMap, pairwise_flatMap]
  constructor
  -- The two verdicts on one peer are about different slots.
  · rintro ⟨party, a⟩ -
    simp [verdictOf]
  · apply (r.peers announcements).sorted.imp
    rintro ⟨i, a⟩ ⟨j, b⟩ hlt v hv w hw ⟨hp, -⟩
    have hi : v.party = i := party_of_mem_verdicts hv
    have hj : w.party = j := party_of_mem_verdicts hw
    exact PartyIdx.ne_of_lt hlt (by rw [← hi, ← hj, hp])

/-- However many workers there are and however they take turns, they can always do all jobs. When
they have, the channel ends up with the one right verdict on each proof, and the round ends as if
the proofs were verified one by one. -/
theorem schedule_independent (r : FirstRound P) (announcements : PartyMap (Announcement P))
    (workers : Nat) :
    (0 < workers → ∀ events (pool : Pool (PartyIdx × Announcement P × Slot) Verdict),
      (Pool.start workers (verificationJobs (r.peers announcements).entries)).play?
        verdictOf events = some pool →
      ∃ more last, (Pool.start workers (verificationJobs (r.peers announcements).entries)).play?
          verdictOf (events ++ more) = some last ∧
        last.isDone = true ∧
        (events ++ more).length = 2 * (verificationJobs (r.peers announcements).entries).length) ∧
    ∀ events (pool : Pool (PartyIdx × Announcement P × Slot) Verdict),
      (Pool.start workers (verificationJobs (r.peers announcements).entries)).play?
        verdictOf events = some pool →
      pool.isDone = true →
      (∀ party a, r.IsPeer announcements party a → ∀ slot,
        (pool.sent.filter fun v => v.party = party ∧ v.slot = slot) =
          [⟨party, slot, a.verifySlot slot⟩]) ∧
      (∀ v ∈ pool.sent, ∃ a, r.IsPeer announcements v.party a) ∧
      pool.sent.length = 2 * (r.peers announcements).entries.length ∧
      ∀ received : List Verdict, received.Perm pool.sent →
        (∀ error, r.finalizeWith (fun _ => received) announcements ≠ .error (.ownSide error)) ∧
        r.finalizeWith (fun _ => received) announcements =
          r.finalizeWith (List.map verdictOf) announcements ∧
        ∀ workers', 0 < workers' →
          r.finalizeWith (fun _ => received) announcements =
            r.finalize workers' announcements := by
  refine ⟨fun hw events pool => Pool.exists_completion hw, fun events pool hplay hdone => ?_⟩
  have hsent : pool.sent ~ r.verdicts announcements := Pool.sent_perm_of_isDone hplay hdone
  refine ⟨fun party a ha slot => ?_, fun v hv => ?_, ?_, fun received hreceived => ?_⟩
  · have hmem : ⟨party, slot, a.verifySlot slot⟩ ∈ r.verdicts announcements :=
      mem_verdicts.mpr ⟨a, ha, rfl⟩
    have hone := filter_eq_singleton verdicts_pairwise hmem
    exact perm_singleton.mp (hone ▸ hsent.filter _)
  · obtain ⟨a, ha, -⟩ := mem_verdicts.mp (hsent.mem_iff.mp hv)
    exact ⟨a, ha⟩
  · rw [hsent.length_eq, verdicts_length]
  · have hseq : r.finalizeWith (fun _ => received) announcements =
        r.finalizeWith (List.map verdictOf) announcements :=
      finalizeWith_perm (hreceived.trans hsent)
    refine ⟨fun error herror => ?_, hseq, fun workers' hw => ?_⟩
    · have hout := r.outcome_sequential announcements
      rw [← hseq, herror] at hout
      cases hout
    · rw [hseq, finalize_eq_sequential hw]

/-- Two workers that take the four jobs out of order. The verdicts are read last to first. From the
point at which both hold a job, they can do all four with six more events. -/
theorem schedule_independent_fourBit :
    (∃ more last, (Pool.start 2 (verificationJobs (fourBit.peers .twoUnproved).entries)).play?
        verdictOf ([.take 0 3, .take 1 0] ++ more) = some last ∧
      last.isDone = true ∧ more.length = 6) ∧
    ∃ pool, (Pool.start 2 (verificationJobs (fourBit.peers .twoUnproved).entries)).play? verdictOf
        [.take 0 3, .take 1 0, .finish 0, .take 0 1, .finish 0, .finish 1, .take 1 0, .finish 1] =
          some pool ∧
      pool.isDone = true ∧
      (pool.sent.filter fun v => v.party = ⟨1⟩ ∧ v.slot = .second) =
        [⟨⟨1⟩, .second, (Announcement.fourBit 4 5 1 2).verifySlot .second⟩] ∧
      fourBit.finalizeWith (fun _ => pool.sent.reverse) .twoUnproved =
        fourBit.finalize 3 .twoUnproved := by
  obtain ⟨hcomplete, hresult⟩ := fourBit.schedule_independent .twoUnproved 2
  constructor
  · obtain ⟨more, last, hplay, hdone, hlength⟩ :=
      hcomplete (by decide) [.take 0 3, .take 1 0] _ rfl
    have hjobs : (verificationJobs (fourBit.peers .twoUnproved).entries).length = 4 := by
      decide +kernel
    rw [hjobs, List.length_append, List.length_cons, List.length_cons, List.length_nil] at hlength
    exact ⟨more, last, hplay, hdone, by omega⟩
  · have hrun : ((Pool.start 2 (verificationJobs (fourBit.peers .twoUnproved).entries)).play?
        verdictOf [.take 0 3, .take 1 0, .finish 0, .take 0 1, .finish 0, .finish 1, .take 1 0,
          .finish 1]).map Pool.isDone = some true := by
      decide +kernel
    obtain ⟨pool, hplay, hdone⟩ := Option.map_eq_some_iff.mp hrun
    obtain ⟨hone, -, -, hreceived⟩ := hresult _ pool hplay hdone
    refine ⟨pool, hplay, hdone, hone _ _ ⟨by decide, by decide +kernel⟩ _, ?_⟩
    exact (hreceived _ (reverse_perm _)).2.2 3 (by decide)

end FirstRound

end DlogProof
