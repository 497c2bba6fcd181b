import DlogProof.Proofs.Finalize

namespace DlogProof

/-- Whether a fault shows in the scan of the announcements, before any proof is verified. -/
def Fault.OfForm : Fault → Prop
  | .firstProofFailed => False
  | .secondProofFailed => False
  | _ => True

namespace Announcement

variable {P : Params}

/-- Whether both moduli of an announcement have the required size. -/
structure Sized (a : Announcement P) : Prop where
  paillierModulus : a.paillierModulus.bits = P.modulusBits
  modulus : a.modulus.bits = P.modulusBits

/-- Whether an announcement has no fault of its own. That its generators are new is not part of
this, as it depends on the other parties. -/
structure Sound (a : Announcement P) : Prop where
  sized : a.Sized
  h1_ne_h2 : a.h1 ≠ a.h2
  proved : ∀ slot, a.verifySlot slot = true

instance (a : Announcement P) : Decidable a.Sized :=
  decidable_of_iff (a.paillierModulus.bits = P.modulusBits ∧ a.modulus.bits = P.modulusBits)
    ⟨fun ⟨h, h'⟩ => ⟨h, h'⟩, fun ⟨h, h'⟩ => ⟨h, h'⟩⟩

instance (a : Announcement P) : Decidable a.Sound :=
  decidable_of_iff
    (a.Sized ∧ a.h1 ≠ a.h2 ∧ a.verifySlot .first = true ∧ a.verifySlot .second = true)
    ⟨fun ⟨hs, hne, h1, h2⟩ => ⟨hs, hne, fun slot => by cases slot <;> assumption⟩,
      fun ⟨hs, hne, hp⟩ => ⟨hs, hne, hp .first, hp .second⟩⟩

theorem HasFault.ofForm {a : Announcement P} {seen : Set P.Integer} {fault : Fault}
    (h : a.HasFault seen fault) : fault.OfForm := by
  cases fault with
  | firstProofFailed => exact h
  | secondProofFailed => exact h
  | _ => trivial

/-- The faults of form all come from the sizes, from equal generators, or from generators seen
before. -/
theorem wellFormed_iff {a : Announcement P} {seen : Set P.Integer} :
    a.WellFormed seen ↔ a.Sized ∧ a.h1 ≠ a.h2 ∧ a.h1 ∉ seen ∧ a.h2 ∉ seen := by
  constructor
  · intro h
    refine ⟨⟨?_, ?_⟩, h .h1EqualsH2, h .h1Reused, h .h2Reused⟩
    · by_contra hne
      exact h (.paillierModulusSize _ _) ⟨hne, rfl, rfl⟩
    · by_contra hne
      exact h (.modulusSize _ _) ⟨hne, rfl, rfl⟩
  · rintro ⟨hsized, hne, h1, h2⟩ fault hf
    cases fault with
    | paillierModulusSize => exact hf.1 hsized.paillierModulus
    | h1EqualsH2 => exact hne hf
    | modulusSize => exact hf.1 hsized.modulus
    | h1Reused => exact h1 hf
    | h2Reused => exact h2 hf
    | firstProofFailed => exact hf
    | secondProofFailed => exact hf

end Announcement

namespace FirstRound

variable {P : Params} {r : FirstRound P} {announcements : PartyMap (Announcement P)}
  {workers : ℕ} {party : PartyIdx} {fault : Fault}

theorem FirstMalformed.ofForm (h : r.FirstMalformed announcements party fault) :
    fault.OfForm := by
  obtain ⟨a, -, hfirst, -⟩ := h
  exact hfirst.1.ofForm

theorem FirstMalformed.not_allWellFormed (h : r.FirstMalformed announcements party fault) :
    ¬ r.AllWellFormed announcements := by
  obtain ⟨a, ha, hfirst, -⟩ := h
  exact fun hform => hform party a ha fault hfirst.1

theorem outcome_finalize (r : FirstRound P) (announcements : PartyMap (Announcement P))
    (hw : 0 < workers) : r.Outcome announcements (r.finalize workers announcements) := by
  rw [finalize_eq_sequential hw]
  exact r.outcome_sequential announcements

theorem finalize_of_outcome {result : Except KeygenError (AcceptedRound P)} (hw : 0 < workers)
    (h : r.Outcome announcements result) : r.finalize workers announcements = result := by
  rw [finalize_eq_sequential hw]
  exact sequential_of_outcome h

/-- A fault of form is blamed on the first party that has one. -/
theorem finalize_eq_malformed_iff (hw : 0 < workers) (hf : fault.OfForm) :
    r.finalize workers announcements = .error (.misbehaved party fault) ↔
      r.FirstMalformed announcements party fault := by
  constructor
  · intro h
    have hout := r.outcome_finalize announcements hw
    rw [h] at hout
    cases hout with
    | malformed hblame => exact hblame
    | firstUnproved => exact hf.elim
    | secondUnproved => exact hf.elim
  · intro hblame
    exact finalize_of_outcome hw (.malformed hblame)

theorem exists_malformed_iff (hw : 0 < workers) :
    (∃ party fault, fault.OfForm ∧
      r.finalize workers announcements = .error (.misbehaved party fault)) ↔
        ¬ r.AllWellFormed announcements := by
  constructor
  · rintro ⟨party, fault, hf, h⟩
    exact ((finalize_eq_malformed_iff hw hf).mp h).not_allWellFormed
  · intro hno
    have hout := r.outcome_finalize announcements hw
    generalize hres : r.finalize workers announcements = result at hout
    cases hout with
    | malformed hblame => exact ⟨_, _, hblame.ofForm, rfl⟩
    | firstUnproved hform => exact absurd hform hno
    | secondUnproved hform => exact absurd hform hno
    | accepted hform => exact absurd hform hno

theorem finalize_eq_firstProofFailed_iff (hw : 0 < workers) :
    r.finalize workers announcements = .error (.misbehaved party .firstProofFailed) ↔
      r.AllWellFormed announcements ∧ r.FirstUnproved announcements .first party := by
  constructor
  · intro h
    have hout := r.outcome_finalize announcements hw
    rw [h] at hout
    cases hout with
    | malformed hblame => exact hblame.ofForm.elim
    | firstUnproved hform hblame => exact ⟨hform, hblame⟩
  · rintro ⟨hform, hblame⟩
    exact finalize_of_outcome hw (.firstUnproved hform hblame)

theorem finalize_eq_secondProofFailed_iff (hw : 0 < workers) :
    r.finalize workers announcements = .error (.misbehaved party .secondProofFailed) ↔
      r.AllWellFormed announcements ∧ r.AllProved announcements .first ∧
        r.FirstUnproved announcements .second party := by
  constructor
  · intro h
    have hout := r.outcome_finalize announcements hw
    rw [h] at hout
    cases hout with
    | malformed hblame => exact hblame.ofForm.elim
    | secondUnproved hform hfirst hblame => exact ⟨hform, hfirst, hblame⟩
  · rintro ⟨hform, hfirst, hblame⟩
    exact finalize_of_outcome hw (.secondUnproved hform hfirst hblame)

/-- No party whose two proofs verify is blamed for a failed proof. -/
theorem finalize_ne_unproved {a : Announcement P} (hw : 0 < workers)
    (ha : announcements.get? party = some a) (hv : ∀ slot, a.verifySlot slot = true)
    (hf : ¬ fault.OfForm) :
    r.finalize workers announcements ≠ .error (.misbehaved party fault) := by
  have hno : ∀ slot, ¬ r.FirstUnproved announcements slot party := by
    rintro slot ⟨b, ⟨-, hb⟩, hfail, -⟩
    obtain rfl : a = b := Option.some.inj (ha.symm.trans hb)
    rw [hv slot] at hfail
    cases hfail
  intro h
  cases fault with
  | firstProofFailed => exact hno _ ((finalize_eq_firstProofFailed_iff hw).mp h).2
  | secondProofFailed => exact hno _ ((finalize_eq_secondProofFailed_iff hw).mp h).2.2
  | _ => exact hf trivial

/-- The one round that can be accepted, and when it is. -/
theorem finalize_eq_ok_iff {round : AcceptedRound P} (hw : 0 < workers) :
    r.finalize workers announcements = .ok round ↔
      r.AllWellFormed announcements ∧ (∀ slot, r.AllProved announcements slot) ∧
        round = ⟨r.ownIdx, r.params, (r.peers announcements).map Announcement.info⟩ := by
  constructor
  · intro h
    have hout := r.outcome_finalize announcements hw
    rw [h] at hout
    cases hout with
    | accepted hform hfirst hsecond hown hparams hpeers =>
      refine ⟨hform, fun slot => ?_, round_eq_of_peers hown hparams hpeers⟩
      cases slot with
      | first => exact hfirst
      | second => exact hsecond
  · rintro ⟨hform, hproved, rfl⟩
    exact finalize_of_outcome hw
      (.accepted hform (hproved .first) (hproved .second) rfl rfl get?_map_peers)

theorem exists_finalize_eq_ok_iff (hw : 0 < workers) :
    (∃ round, r.finalize workers announcements = .ok round) ↔
      r.AllWellFormed announcements ∧ ∀ slot, r.AllProved announcements slot := by
  simp only [finalize_eq_ok_iff hw, exists_and_left, exists_eq, and_true]

/-- What an accepted round keeps of the peers. -/
theorem get?_peers_of_finalize {round : AcceptedRound P} (hw : 0 < workers)
    (h : r.finalize workers announcements = .ok round) (party : PartyIdx) (info : PeerInfo P) :
    round.peers.get? party = some info ↔
      ∃ a, r.IsPeer announcements party a ∧ info.Announced a := by
  rw [((finalize_eq_ok_iff hw).mp h).2.2]
  exact get?_map_peers party info

end FirstRound

end DlogProof
