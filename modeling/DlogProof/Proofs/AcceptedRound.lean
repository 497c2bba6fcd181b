import DlogProof.Proofs.Acceptance
import DlogProof.Proofs.Framing
import DlogProof.Proofs.Generators

namespace DlogProof

open List

variable {limbs : ℕ} {P : Params}

/-- Whether two generators have the ranges that the verifier of the proofs about them requires. -/
structure GeneratorsInRange (modulus h1 h2 : Uint limbs) : Prop where
  odd : modulus.val % 2 = 1
  h1_range : 1 ≤ h1.val ∧ h1.val < modulus.val
  h2_range : 1 ≤ h2.val ∧ h2.val < modulus.val

theorem Announcement.generatorsInRange {a : Announcement P} (h : a.verifySlot .first = true) :
    GeneratorsInRange a.modulus a.h1 a.h2 := by
  have hc := (a.verifySlot_iff_convincing .first).mp h
  exact ⟨hc.odd, hc.base_range, hc.power_range⟩

theorem PeerInfo.Announced.generatorsInRange {info : PeerInfo P} {a : Announcement P}
    (hinfo : info.Announced a) (h : GeneratorsInRange a.modulus a.h1 a.h2) :
    GeneratorsInRange info.modulus info.h1 info.h2 := by
  rwa [hinfo.modulus, hinfo.h1, hinfo.h2]

/-- The generators of the own party, followed by those of all peers. -/
def AcceptedRound.generators (round : AcceptedRound P) : List P.Integer :=
  [round.params.h1, round.params.h2] ++ round.peers.entries.flatMap fun e => [e.2.h1, e.2.h2]

namespace FirstRound

variable {r : FirstRound P} {announcements : PartyMap (Announcement P)} {workers : ℕ}
  {round : AcceptedRound P}

theorem generators_of_finalize (hw : 0 < workers)
    (h : r.finalize workers announcements = .ok round) :
    round.generators =
      [r.params.h1, r.params.h2] ++ generatorsOf (r.peers announcements).entries := by
  rw [((finalize_eq_ok_iff hw).mp h).2.2, AcceptedRound.generators, PartyMap.map, flatMap_map]
  rfl

theorem scan_eq_none_iff_nodup (hne : r.params.h1 ≠ r.params.h2) :
    firstFault? [r.params.h1, r.params.h2] (r.peers announcements).entries = none ↔
      (∀ party a, r.IsPeer announcements party a → a.Sized) ∧
        ([r.params.h1, r.params.h2] ++ generatorsOf (r.peers announcements).entries).Nodup := by
  rw [scan_eq_none_iff, allWellFormed_iff_nodup hne, perm_append_comm.nodup_iff]

/-- The scan passes exactly if all moduli have the required size and no generator occurs twice
among those of all parties. So the generators of an accepted round, which are the own ones and all
that the peers have announced, all differ, and those of every peer are in range. -/
theorem generators_unique (r : FirstRound P) (announcements : PartyMap (Announcement P))
    (hne : r.params.h1 ≠ r.params.h2) (hw : 0 < workers) :
    (firstFault? [r.params.h1, r.params.h2] (r.peers announcements).entries = none ↔
      (∀ party a, r.IsPeer announcements party a → a.Sized) ∧
        ([r.params.h1, r.params.h2] ++ generatorsOf (r.peers announcements).entries).Nodup) ∧
    ∀ round, r.finalize workers announcements = .ok round →
      round.generators =
          [r.params.h1, r.params.h2] ++ generatorsOf (r.peers announcements).entries ∧
        round.generators.Nodup ∧
        (∀ party info, round.peers.get? party = some info ↔
          ∃ a, r.IsPeer announcements party a ∧ info.Announced a) ∧
        (∀ party info, round.peers.get? party = some info →
          GeneratorsInRange info.modulus info.h1 info.h2) ∧
        ∀ party a, r.IsPeer announcements party a → GeneratorsInRange a.modulus a.h1 a.h2 := by
  refine ⟨scan_eq_none_iff_nodup hne, fun round h => ?_⟩
  obtain ⟨hform, hproved, -⟩ := (finalize_eq_ok_iff hw).mp h
  have hgenerators := generators_of_finalize hw h
  have hpeers := get?_peers_of_finalize hw h
  have hrange : ∀ party a, r.IsPeer announcements party a →
      GeneratorsInRange a.modulus a.h1 a.h2 :=
    fun party a ha => Announcement.generatorsInRange (hproved .first party a ha)
  refine ⟨hgenerators, ?_, hpeers, fun party info hinfo => ?_, hrange⟩
  · rw [hgenerators]
    exact ((scan_eq_none_iff_nodup hne).mp (scan_eq_none_iff.mpr hform)).2
  · obtain ⟨a, ha, hannounced⟩ := (hpeers party info).mp hinfo
    exact hannounced.generatorsInRange (hrange party a ha)

end FirstRound

/-- The scan refuses the `h2` of one party as the `h1` of another, and accepts six generators that
differ. -/
theorem FirstRound.generators_unique_fourBit :
    ¬ ([fourBit.params.h1, fourBit.params.h2] ++
        generatorsOf (fourBit.peers .crossCopied).entries).Nodup ∧
      fourBit.finalize 3 .allProved = .ok .fourBit ∧
      AcceptedRound.fourBit.generators =
        [fourBit.params.h1, fourBit.params.h2] ++
          generatorsOf (fourBit.peers .allProved).entries ∧
      AcceptedRound.fourBit.generators.Nodup ∧
      (∀ party info, AcceptedRound.fourBit.peers.get? party = some info →
        GeneratorsInRange info.modulus info.h1 info.h2) ∧
      GeneratorsInRange (.ofByte 13) (.ofByte 6) (.ofByte 7) := by
  have hne : fourBit.params.h1 ≠ fourBit.params.h2 := by decide
  have hw : 0 < 3 := by decide
  have hrun : fourBit.finalize 3 .allProved = .ok .fourBit := by decide +kernel
  have hsized : ∀ party a, fourBit.IsPeer .crossCopied party a → a.Sized :=
    (forall_mem_peers_iff (p := fun e => e.2.Sized)).mp (by decide +kernel)
  have hscan : firstFault? [fourBit.params.h1, fourBit.params.h2]
      (fourBit.peers .crossCopied).entries ≠ none := by decide +kernel
  have hpeer : fourBit.IsPeer .allProved ⟨2⟩ (.fourBit 6 7 1 1) := ⟨by decide, by decide +kernel⟩
  obtain ⟨hgenerators, hnodup, -, hkept, hannounced⟩ :=
    (generators_unique fourBit .allProved hne hw).2 _ hrun
  refine ⟨fun hno => ?_, hrun, hgenerators, hnodup, hkept, hannounced ⟨2⟩ _ hpeer⟩
  exact hscan ((generators_unique fourBit .crossCopied hne hw).1.mpr ⟨hsized, hno⟩)

end DlogProof
