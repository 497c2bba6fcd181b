import DlogProof.Proofs.Generators

namespace DlogProof

open List

/-- The announcements of two honest parties, and of one between them whose second proof fails. -/
def PartyMap.oneUnproved : PartyMap (Announcement .fourBit) :=
  ((PartyMap.empty.insert ⟨0⟩ (.fourBit 2 3 1 1)).insert ⟨2⟩ (.fourBit 6 7 1 1)).insert ⟨1⟩
    (.fourBit 4 5 1 2)

namespace FirstRound

variable {P : Params} {r r' : FirstRound P} {announcements : PartyMap (Announcement P)}

/-- Whether a party finds its own announcement among those of all parties, and that is sound and has
the generators of the party's parameters. -/
structure Honest (r : FirstRound P) (announcements : PartyMap (Announcement P)) : Prop where
  entry : announcements.get? r.ownIdx = some r.announcement
  h1_eq : r.announcement.h1 = r.params.h1
  h2_eq : r.announcement.h2 = r.params.h2
  sound : r.announcement.Sound

namespace Honest

/-- What holds of the own announcement holds of all announcements if it holds of the others. -/
theorem forall_isPeer_iff (h : r.Honest announcements) {p : PartyIdx → Announcement P → Prop}
    (hown : p r.ownIdx r.announcement) :
    (∀ party a, r.IsPeer announcements party a → p party a) ↔
      ∀ party a, announcements.get? party = some a → p party a := by
  constructor
  · intro hpeers party a ha
    by_cases hi : party = r.ownIdx
    · subst hi
      obtain rfl : r.announcement = a := Option.some.inj (h.entry.symm.trans ha)
      exact hown
    · exact hpeers party a ⟨hi, ha⟩
  · intro hall party a ha
    exact hall party a ha.2

/-- The scan of an honest party compares all generators with each other, its own among them. -/
theorem generatorsOf_perm (h : r.Honest announcements) :
    generatorsOf (r.peers announcements).entries ++ [r.params.h1, r.params.h2] ~
      generatorsOf announcements.entries := by
  have hown : generatorsOf ((r.ownIdx, r.announcement) :: (r.peers announcements).entries) =
      [r.params.h1, r.params.h2] ++ generatorsOf (r.peers announcements).entries := by
    rw [generatorsOf_cons, h.h1_eq, h.h2_eq]
    rfl
  have hentries := (PartyMap.entries_perm_cons_erase h.entry).flatMap_right
    fun e => [e.2.h1, e.2.h2]
  exact perm_append_comm.trans (hown ▸ hentries.symm)

/-- Whether the announcements have the right form is the same question for all honest parties. -/
theorem allWellFormed_iff (h : r.Honest announcements) :
    r.AllWellFormed announcements ↔
      (∀ party a, announcements.get? party = some a → a.Sized) ∧
        (generatorsOf announcements.entries).Nodup := by
  have hne : r.params.h1 ≠ r.params.h2 := by
    rw [← h.h1_eq, ← h.h2_eq]
    exact h.sound.h1_ne_h2
  rw [allWellFormed_iff_nodup hne, h.generatorsOf_perm.nodup_iff,
    h.forall_isPeer_iff (p := fun _ a => a.Sized) h.sound.sized]

theorem allProved_iff (h : r.Honest announcements) {slot : Slot} :
    r.AllProved announcements slot ↔
      ∀ party a, announcements.get? party = some a → a.verifySlot slot = true :=
  h.forall_isPeer_iff (p := fun _ a => a.verifySlot slot = true) (h.sound.proved slot)

theorem firstUnproved_iff (h : r.Honest announcements) {slot : Slot} {party : PartyIdx} :
    r.FirstUnproved announcements slot party ↔
      ∃ a, announcements.get? party = some a ∧ a.verifySlot slot = false ∧
        ∀ j b, announcements.get? j = some b → j < party → b.verifySlot slot = true := by
  have hbefore := h.forall_isPeer_iff
    (p := fun j b => j < party → b.verifySlot slot = true) fun _ => h.sound.proved slot
  constructor
  · rintro ⟨a, ha, hfail, hleast⟩
    exact ⟨a, ha.2, hfail, hbefore.mp hleast⟩
  · rintro ⟨a, ha, hfail, hleast⟩
    refine ⟨a, ⟨?_, ha⟩, hfail, hbefore.mpr hleast⟩
    rintro rfl
    obtain rfl : r.announcement = a := Option.some.inj (h.entry.symm.trans ha)
    rw [h.sound.proved slot] at hfail
    cases hfail

end Honest

/-- The round of a party with index two and the generators six and seven. -/
def fourBitOther : FirstRound .fourBit where
  ownIdx := ⟨2⟩
  params := { fourBit.params with h1 := .ofByte 6, h2 := .ofByte 7 }
  announcement := .fourBit 6 7 1 1

/-- Honest parties come to the same end: they accept the same announcements with the same data of
the others, they reject the same ones for their form, and they blame the same party for a failed
proof. -/
theorem honest_agreement (hr : r.Honest announcements) (hr' : r'.Honest announcements)
    {workers workers' : ℕ} (hw : 0 < workers) (hw' : 0 < workers') :
    ((∃ round, r.finalize workers announcements = .ok round) ↔
      ∃ round', r'.finalize workers' announcements = .ok round') ∧
    (∀ round round', r.finalize workers announcements = .ok round →
      r'.finalize workers' announcements = .ok round' →
      ∀ party, party ≠ r.ownIdx → party ≠ r'.ownIdx →
        round.peers.get? party = round'.peers.get? party) ∧
    ((∃ party fault, fault.OfForm ∧
        r.finalize workers announcements = .error (.misbehaved party fault)) ↔
      ∃ party fault, fault.OfForm ∧
        r'.finalize workers' announcements = .error (.misbehaved party fault)) ∧
    ∀ party fault, ¬ fault.OfForm →
      (r.finalize workers announcements = .error (.misbehaved party fault) ↔
        r'.finalize workers' announcements = .error (.misbehaved party fault)) := by
  have hform : r.AllWellFormed announcements ↔ r'.AllWellFormed announcements :=
    hr.allWellFormed_iff.trans hr'.allWellFormed_iff.symm
  have hproved : ∀ slot, r.AllProved announcements slot ↔ r'.AllProved announcements slot :=
    fun _ => hr.allProved_iff.trans hr'.allProved_iff.symm
  have hblame : ∀ slot party,
      r.FirstUnproved announcements slot party ↔ r'.FirstUnproved announcements slot party :=
    fun _ _ => hr.firstUnproved_iff.trans hr'.firstUnproved_iff.symm
  refine ⟨?_, ?_, ?_, ?_⟩
  · rw [exists_finalize_eq_ok_iff hw, exists_finalize_eq_ok_iff hw', hform]
    simp only [hproved]
  · intro round round' h h' party hi hi'
    apply Option.ext
    intro info
    rw [get?_peers_of_finalize hw h, get?_peers_of_finalize hw' h']
    simp only [IsPeer, ne_eq, hi, hi', not_false_eq_true, true_and]
  · rw [exists_malformed_iff hw, exists_malformed_iff hw', hform]
  · intro party fault hf
    cases fault with
    | firstProofFailed =>
      rw [finalize_eq_firstProofFailed_iff hw, finalize_eq_firstProofFailed_iff hw', hform, hblame]
    | secondProofFailed =>
      rw [finalize_eq_secondProofFailed_iff hw, finalize_eq_secondProofFailed_iff hw', hform,
        hproved, hblame]
    | _ => exact absurd trivial hf

/-- Two honest parties on either side of the one they blame. -/
theorem honest_agreement_fourBit :
    fourBit.Honest .oneUnproved ∧ fourBitOther.Honest .oneUnproved ∧
      fourBitOther.finalize 3 .oneUnproved = .error (.misbehaved ⟨1⟩ .secondProofFailed) := by
  have hr : fourBit.Honest .oneUnproved :=
    ⟨by decide +kernel, rfl, rfl, by decide +kernel⟩
  have hr' : fourBitOther.Honest .oneUnproved :=
    ⟨by decide +kernel, rfl, rfl, by decide +kernel⟩
  refine ⟨hr, hr', ?_⟩
  exact ((honest_agreement hr hr' (by decide : 0 < 2) (by decide : 0 < 3)).2.2.2 ⟨1⟩
    .secondProofFailed id).mp (by decide +kernel)

end FirstRound

end DlogProof
