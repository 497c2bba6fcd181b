import DlogProof.Proofs.Blame

namespace DlogProof

variable {P : Params}

namespace Announcement.Sound

variable {a : Announcement P} {seen : Set P.Integer} {fault : Fault}

/-- The only faults of a sound announcement are generators that were seen before. -/
theorem hasFault_iff (hs : a.Sound) : a.HasFault seen fault ↔
    fault = .h1Reused ∧ a.h1 ∈ seen ∨ fault = .h2Reused ∧ a.h2 ∈ seen := by
  cases fault with
  | paillierModulusSize => simp [HasFault, hs.sized.paillierModulus]
  | h1EqualsH2 => simp [HasFault, hs.h1_ne_h2]
  | modulusSize => simp [HasFault, hs.sized.modulus]
  | h1Reused => simp [HasFault]
  | h2Reused => simp [HasFault]
  | firstProofFailed => simp [HasFault]
  | secondProofFailed => simp [HasFault]

theorem firstFault_iff (hs : a.Sound) : a.FirstFault seen fault ↔
    fault = .h1Reused ∧ a.h1 ∈ seen ∨ fault = .h2Reused ∧ a.h1 ∉ seen ∧ a.h2 ∈ seen := by
  simp only [FirstFault, hs.hasFault_iff]
  constructor
  · rintro ⟨⟨rfl, h1⟩ | ⟨rfl, h2⟩, hleast⟩
    · exact Or.inl ⟨rfl, h1⟩
    · refine Or.inr ⟨rfl, fun h1 => ?_, h2⟩
      exact absurd (hleast .h1Reused (Or.inl ⟨rfl, h1⟩)) (by decide)
  · rintro (⟨rfl, h1⟩ | ⟨rfl, hnew, h2⟩)
    · refine ⟨Or.inl ⟨rfl, h1⟩, ?_⟩
      rintro other (⟨rfl, -⟩ | ⟨rfl, -⟩) <;> decide
    · refine ⟨Or.inr ⟨rfl, h2⟩, ?_⟩
      rintro other (⟨rfl, h1⟩ | ⟨rfl, -⟩)
      · exact absurd h1 hnew
      · exact le_rfl

end Announcement.Sound

namespace FirstRound

variable {r : FirstRound P} {announcements : PartyMap (Announcement P)} {workers : ℕ}
  {party : PartyIdx} {a : Announcement P}

/-- Whether a peer with a smaller index has announced a generator. -/
def CopiedBefore (r : FirstRound P) (announcements : PartyMap (Announcement P))
    (party : PartyIdx) (x : P.Integer) : Prop :=
  ∃ j b, r.IsPeer announcements j b ∧ j < party ∧ (x = b.h1 ∨ x = b.h2)

theorem mem_seen_iff_copiedBefore {x : P.Integer} (h1 : x ≠ r.params.h1)
    (h2 : x ≠ r.params.h2) :
    x ∈ r.seen announcements party ↔ r.CopiedBefore announcements party x := by
  simp only [seen, Set.mem_ofPred_eq, h1, h2, false_or]
  rfl

/-- A party with a sound announcement and generators other than the local ones is blamed exactly if
the scan gets to it and finds its `h1`, or else its `h2`, announced by a party before it. -/
theorem blamed_iff_copied (ha : r.IsPeer announcements party a) (hs : a.Sound)
    (hown : ∀ x ∈ [a.h1, a.h2], x ≠ r.params.h1 ∧ x ≠ r.params.h2) (hw : 0 < workers)
    (fault : Fault) :
    r.finalize workers announcements = .error (.misbehaved party fault) ↔
      (∀ j b, r.IsPeer announcements j b → j < party → b.WellFormed (r.seen announcements j)) ∧
        (fault = .h1Reused ∧ r.CopiedBefore announcements party a.h1 ∨
          fault = .h2Reused ∧ ¬ r.CopiedBefore announcements party a.h1 ∧
            r.CopiedBefore announcements party a.h2) := by
  have h1 := hown a.h1 (by simp)
  have h2 := hown a.h2 (by simp)
  rw [← mem_seen_iff_copiedBefore h1.1 h1.2, ← mem_seen_iff_copiedBefore h2.1 h2.2,
    ← hs.firstFault_iff]
  have hmalformed : r.FirstMalformed announcements party fault ↔
      (∀ j b, r.IsPeer announcements j b → j < party → b.WellFormed (r.seen announcements j)) ∧
        a.FirstFault (r.seen announcements party) fault := by
    constructor
    · rintro ⟨b, hb, hfirst, hbefore⟩
      obtain rfl : a = b := Option.some.inj (ha.2.symm.trans hb.2)
      exact ⟨hbefore, hfirst⟩
    · rintro ⟨hbefore, hfirst⟩
      exact ⟨a, ha, hfirst, hbefore⟩
  rw [← hmalformed]
  by_cases hf : fault.OfForm
  · exact finalize_eq_malformed_iff hw hf
  · constructor
    · intro h
      exact absurd h (finalize_ne_unproved hw ha.2 hs.proved hf)
    · intro h
      exact absurd h.ofForm hf

end FirstRound

/-- Party 1 announces the `h2` of party 2 as its own `h1`. -/
def PartyMap.crossCopied : PartyMap (Announcement .fourBit) :=
  ((PartyMap.empty.insert ⟨0⟩ (.fourBit 2 3 1 1)).insert ⟨2⟩ (.fourBit 4 5 1 1)).insert ⟨1⟩
    (.fourBit 5 6 2 2)

/-- The `h1` of party 2 is new, so its `h2` is what it is blamed for. -/
theorem FirstRound.blamed_iff_copied_fourBit :
    fourBit.finalize 3 .crossCopied = .error (.misbehaved ⟨2⟩ .h2Reused) ∧
      (∀ j b, fourBit.IsPeer .crossCopied j b → j < ⟨2⟩ →
        b.WellFormed (fourBit.seen .crossCopied j)) ∧
      ¬ fourBit.CopiedBefore .crossCopied ⟨2⟩ (Announcement.fourBit 4 5 1 1).h1 ∧
      fourBit.CopiedBefore .crossCopied ⟨2⟩ (Announcement.fourBit 4 5 1 1).h2 := by
  have hpeer : fourBit.IsPeer .crossCopied ⟨2⟩ (.fourBit 4 5 1 1) := ⟨by decide, by decide +kernel⟩
  have hrun : fourBit.finalize 3 .crossCopied = .error (.misbehaved ⟨2⟩ .h2Reused) := by
    decide +kernel
  have hblamed := (blamed_iff_copied hpeer (by decide +kernel) (by decide) (by decide : 0 < 3)
    .h2Reused).mp hrun
  exact ⟨hrun, by simpa using hblamed⟩

/-- Party 1 announces the same as party 2, whose announcement is sound. -/
def PartyMap.copied : PartyMap (Announcement .fourBit) :=
  ((PartyMap.empty.insert ⟨0⟩ (.fourBit 2 3 1 1)).insert ⟨2⟩ (.fourBit 4 5 1 1)).insert ⟨1⟩
    (.fourBit 4 5 1 1)

/-- The scan goes by the indices, and does not know who announced first. So it is the victim of a
copy that is blamed if the copier has the smaller index. -/
theorem FirstRound.victim_of_copy_blamed :
    fourBit.IsPeer .copied ⟨2⟩ (.fourBit 4 5 1 1) ∧ (Announcement.fourBit 4 5 1 1).Sound ∧
      (∀ x ∈ [(Announcement.fourBit 4 5 1 1).h1, (Announcement.fourBit 4 5 1 1).h2],
        x ≠ fourBit.params.h1 ∧ x ≠ fourBit.params.h2) ∧
      fourBit.finalize 2 .copied = .error (.misbehaved ⟨2⟩ .h1Reused) :=
  ⟨⟨by decide, by decide +kernel⟩, by decide +kernel, by decide, by decide +kernel⟩

end DlogProof
