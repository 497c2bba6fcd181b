import DlogProof.Proofs.Fault
import DlogProof.Proofs.Pool
import DlogProof.Proofs.Verdict
import DlogProof.Proofs.Verification

namespace DlogProof

variable {P : Params}

/-- Whether the parameters kept of a party are those of its announcement. -/
structure PeerInfo.Announced (info : PeerInfo P) (a : Announcement P) : Prop where
  paillierModulus : info.paillierModulus = a.paillierModulus
  modulus : info.modulus = a.modulus
  h1 : info.h1 = a.h1
  h2 : info.h2 = a.h2

theorem PeerInfo.announced_iff {info : PeerInfo P} {a : Announcement P} :
    info.Announced a ↔ a.info = info := by
  constructor
  · obtain ⟨paillierModulus, modulus, h1, h2⟩ := info
    rintro ⟨rfl, rfl, rfl, rfl⟩
    rfl
  · rintro rfl
    exact ⟨rfl, rfl, rfl, rfl⟩

namespace FirstRound

variable {r : FirstRound P} {announcements : PartyMap (Announcement P)}

/-- Whether another party has made an announcement. -/
def IsPeer (r : FirstRound P) (announcements : PartyMap (Announcement P)) (party : PartyIdx)
    (a : Announcement P) : Prop :=
  party ≠ r.ownIdx ∧ announcements.get? party = some a

/-- The generators that a party must not announce again: the own ones, and those of the peers with
a smaller index. -/
def seen (r : FirstRound P) (announcements : PartyMap (Announcement P)) (party : PartyIdx) :
    Set P.Integer :=
  {x | x = r.params.h1 ∨ x = r.params.h2 ∨
    ∃ j b, r.IsPeer announcements j b ∧ j < party ∧ (x = b.h1 ∨ x = b.h2)}

/-- Whether no peer has a fault of form. -/
def AllWellFormed (r : FirstRound P) (announcements : PartyMap (Announcement P)) : Prop :=
  ∀ party a, r.IsPeer announcements party a → a.WellFormed (r.seen announcements party)

/-- Whether all proofs in a slot decode and verify. -/
def AllProved (r : FirstRound P) (announcements : PartyMap (Announcement P)) (slot : Slot) : Prop :=
  ∀ party a, r.IsPeer announcements party a → a.verifySlot slot = true

/-- Whether a party has the smallest index of those with a fault of form, and the fault is the
first one of its announcement. -/
def FirstMalformed (r : FirstRound P) (announcements : PartyMap (Announcement P))
    (party : PartyIdx) (fault : Fault) : Prop :=
  ∃ a, r.IsPeer announcements party a ∧ a.FirstFault (r.seen announcements party) fault ∧
    ∀ j b, r.IsPeer announcements j b → j < party → b.WellFormed (r.seen announcements j)

/-- Whether a party has the smallest index of those with a failing proof in a slot. -/
def FirstUnproved (r : FirstRound P) (announcements : PartyMap (Announcement P)) (slot : Slot)
    (party : PartyIdx) : Prop :=
  ∃ a, r.IsPeer announcements party a ∧ a.verifySlot slot = false ∧
    ∀ j b, r.IsPeer announcements j b → j < party → b.verifySlot slot = true

/-- What the announcements of the first round lead to. The accepted round keeps the own index and
parameters, and for each peer, and nobody else, the moduli and generators that it has announced. -/
inductive Outcome (r : FirstRound P) (announcements : PartyMap (Announcement P)) :
    Except KeygenError (AcceptedRound P) → Prop where
  | malformed {party : PartyIdx} {fault : Fault}
      (hblame : r.FirstMalformed announcements party fault) :
      Outcome r announcements (.error (.misbehaved party fault))
  | firstUnproved {party : PartyIdx} (hform : r.AllWellFormed announcements)
      (hblame : r.FirstUnproved announcements .first party) :
      Outcome r announcements (.error (.misbehaved party .firstProofFailed))
  | secondUnproved {party : PartyIdx} (hform : r.AllWellFormed announcements)
      (hfirst : r.AllProved announcements .first)
      (hblame : r.FirstUnproved announcements .second party) :
      Outcome r announcements (.error (.misbehaved party .secondProofFailed))
  | accepted {round : AcceptedRound P} (hform : r.AllWellFormed announcements)
      (hfirst : r.AllProved announcements .first) (hsecond : r.AllProved announcements .second)
      (hown : round.ownIdx = r.ownIdx) (hparams : round.params = r.params)
      (hpeers : ∀ party info, round.peers.get? party = some info ↔
        ∃ a, r.IsPeer announcements party a ∧ info.Announced a) :
      Outcome r announcements (.ok round)

theorem mem_peers_iff {party : PartyIdx} {a : Announcement P} :
    (party, a) ∈ (r.peers announcements).entries ↔ r.IsPeer announcements party a :=
  PartyMap.mem_erase

theorem forall_mem_peers_iff {p : PartyIdx × Announcement P → Prop} :
    (∀ e ∈ (r.peers announcements).entries, p e) ↔
      ∀ party a, r.IsPeer announcements party a → p (party, a) := by
  simp only [Prod.forall, mem_peers_iff]

/-- The scan over the peers has seen the right generators when it gets to a party. -/
theorem seenBefore_peers (party : PartyIdx) :
    seenBefore {x | x ∈ [r.params.h1, r.params.h2]} (r.peers announcements).entries party =
      r.seen announcements party := by
  apply Set.ext
  intro x
  simp only [seenBefore, seen, Set.mem_ofPred_eq, List.mem_cons, List.not_mem_nil, or_false,
    Prod.exists, mem_peers_iff, or_assoc]

theorem scan_eq_none_iff :
    firstFault? [r.params.h1, r.params.h2] (r.peers announcements).entries = none ↔
      r.AllWellFormed announcements := by
  rw [firstFault?_eq_none_iff (r.peers announcements).sorted, forall_mem_peers_iff]
  simp only [seenBefore_peers]
  rfl

theorem scan_eq_some_iff {party : PartyIdx} {fault : Fault} :
    firstFault? [r.params.h1, r.params.h2] (r.peers announcements).entries = some (party, fault) ↔
      r.FirstMalformed announcements party fault := by
  rw [firstFault?_eq_some_iff (r.peers announcements).sorted, FirstFaultIn]
  simp only [forall_mem_peers_iff, mem_peers_iff, seenBefore_peers]
  rfl

/-- The verdicts on the proofs of all peers, in the order of the jobs. -/
def verdicts (r : FirstRound P) (announcements : PartyMap (Announcement P)) : List Verdict :=
  (verificationJobs (r.peers announcements).entries).map verdictOf

theorem mem_verdicts {party : PartyIdx} {slot : Slot} {ok : Bool} :
    ⟨party, slot, ok⟩ ∈ r.verdicts announcements ↔
      ∃ a, r.IsPeer announcements party a ∧ ok = a.verifySlot slot := by
  simp only [verdicts, mem_verdicts_iff, mem_peers_iff]

theorem verdicts_length :
    (r.verdicts announcements).length = 2 * (r.peers announcements).entries.length := by
  rw [verdicts, List.length_map, verificationJobs_length]

theorem firstFailure?_verdicts_eq_none_iff {slot : Slot} :
    firstFailure? slot (r.verdicts announcements) = none ↔ r.AllProved announcements slot := by
  rw [firstFailure?_eq_none_iff]
  constructor
  · intro h party a ha
    exact h _ (mem_verdicts.mpr ⟨a, ha, rfl⟩) rfl
  · rintro h ⟨party, _, ok⟩ hv rfl
    obtain ⟨a, ha, rfl⟩ := mem_verdicts.mp hv
    exact h party a ha

theorem firstFailure?_verdicts_eq_some_iff {slot : Slot} {party : PartyIdx} :
    firstFailure? slot (r.verdicts announcements) = some party ↔
      r.FirstUnproved announcements slot party := by
  rw [firstFailure?_eq_some_iff, mem_verdicts, FirstUnproved]
  constructor
  · rintro ⟨⟨a, ha, hfail⟩, hleast⟩
    refine ⟨a, ha, hfail.symm, fun j b hb hlt => ?_⟩
    by_contra hb'
    have hok : false = b.verifySlot slot := (Bool.eq_false_iff.mpr hb').symm
    exact hleast _ (mem_verdicts.mpr ⟨b, hb, hok⟩) rfl rfl hlt
  · rintro ⟨a, ha, hfail, hleast⟩
    refine ⟨⟨a, ha, hfail.symm⟩, ?_⟩
    rintro ⟨j, _, _⟩ hv rfl rfl hlt
    obtain ⟨b, hb, hok⟩ := mem_verdicts.mp hv
    rw [hleast j b hb hlt] at hok
    cases hok

/-- Only the verdicts matter, not the order in which they arrive. -/
theorem finalizeWith_perm
    {runJobs runJobs' : List (PartyIdx × Announcement P × Slot) → List Verdict}
    (h : (runJobs (verificationJobs (r.peers announcements).entries)).Perm
      (runJobs' (verificationJobs (r.peers announcements).entries))) :
    r.finalizeWith runJobs announcements = r.finalizeWith runJobs' announcements := by
  simp only [finalizeWith, r.conclude_perm (r.peers announcements) h]

/-- The pool comes to the same result as running the jobs one after another. -/
theorem finalize_eq_sequential {workers : Nat} (hw : 0 < workers) :
    r.finalize workers announcements = r.finalizeWith (List.map verdictOf) announcements :=
  finalizeWith_perm (by rw [runBatch_eq_map hw])

theorem conclude_verdicts :
    r.conclude (r.peers announcements) (r.verdicts announcements) =
      match firstFailure? .first (r.verdicts announcements),
        firstFailure? .second (r.verdicts announcements) with
      | some party, _ => .error (.misbehaved party .firstProofFailed)
      | none, some party => .error (.misbehaved party .secondProofFailed)
      | none, none => .ok ⟨r.ownIdx, r.params, (r.peers announcements).map Announcement.info⟩ := by
  rw [conclude, verdicts_length]
  exact if_neg (not_not.mpr rfl)

/-- What is kept of the peers is what they have announced. -/
theorem get?_map_peers (party : PartyIdx) (info : PeerInfo P) :
    ((r.peers announcements).map Announcement.info).get? party = some info ↔
      ∃ a, r.IsPeer announcements party a ∧ info.Announced a := by
  simp only [PartyMap.get?_map, Option.map_eq_some_iff, PartyMap.get?_eq_some_iff, mem_peers_iff,
    PeerInfo.announced_iff]

/-- An accepted round is known by what its map holds for each party. -/
theorem round_eq_of_peers {round : AcceptedRound P} (hown : round.ownIdx = r.ownIdx)
    (hparams : round.params = r.params)
    (hpeers : ∀ party info, round.peers.get? party = some info ↔
      ∃ a, r.IsPeer announcements party a ∧ info.Announced a) :
    round = ⟨r.ownIdx, r.params, (r.peers announcements).map Announcement.info⟩ := by
  have hmap : round.peers = (r.peers announcements).map Announcement.info :=
    PartyMap.ext_get? fun party => Option.ext fun info =>
      (hpeers party info).trans (get?_map_peers party info).symm
  rw [← hown, ← hparams, ← hmap]

/-- The verdicts blame the right party, or accept the right map. -/
theorem outcome_conclude (hform : r.AllWellFormed announcements) :
    r.Outcome announcements (r.conclude (r.peers announcements) (r.verdicts announcements)) := by
  rw [conclude_verdicts]
  cases hfirst : firstFailure? .first (r.verdicts announcements) with
  | some party => exact .firstUnproved hform (firstFailure?_verdicts_eq_some_iff.mp hfirst)
  | none =>
    have hf := firstFailure?_verdicts_eq_none_iff.mp hfirst
    cases hsecond : firstFailure? .second (r.verdicts announcements) with
    | some party => exact .secondUnproved hform hf (firstFailure?_verdicts_eq_some_iff.mp hsecond)
    | none =>
      have hs := firstFailure?_verdicts_eq_none_iff.mp hsecond
      exact .accepted hform hf hs rfl rfl get?_map_peers

theorem outcome_sequential (r : FirstRound P) (announcements : PartyMap (Announcement P)) :
    r.Outcome announcements (r.finalizeWith (List.map verdictOf) announcements) := by
  rw [finalizeWith]
  cases hscan : firstFault? [r.params.h1, r.params.h2] (r.peers announcements).entries with
  | some blame => exact .malformed (scan_eq_some_iff.mp hscan)
  | none => exact outcome_conclude (scan_eq_none_iff.mp hscan)

theorem finalizeWith_of_allWellFormed (hform : r.AllWellFormed announcements) :
    r.finalizeWith (List.map verdictOf) announcements =
      r.conclude (r.peers announcements) (r.verdicts announcements) := by
  simp only [finalizeWith, scan_eq_none_iff.mpr hform]
  rfl

theorem sequential_of_outcome {result : Except KeygenError (AcceptedRound P)}
    (h : r.Outcome announcements result) :
    r.finalizeWith (List.map verdictOf) announcements = result := by
  cases h with
  | malformed hblame => simp only [finalizeWith, scan_eq_some_iff.mpr hblame]
  | firstUnproved hform hblame =>
    rw [finalizeWith_of_allWellFormed hform, conclude_verdicts,
      firstFailure?_verdicts_eq_some_iff.mpr hblame]
  | secondUnproved hform hfirst hblame =>
    rw [finalizeWith_of_allWellFormed hform, conclude_verdicts,
      firstFailure?_verdicts_eq_none_iff.mpr hfirst, firstFailure?_verdicts_eq_some_iff.mpr hblame]
  | accepted hform hfirst hsecond hown hparams hpeers =>
    rw [finalizeWith_of_allWellFormed hform, conclude_verdicts,
      firstFailure?_verdicts_eq_none_iff.mpr hfirst, firstFailure?_verdicts_eq_none_iff.mpr hsecond,
      round_eq_of_peers hown hparams hpeers]

/-- The first round ends exactly as the announcements of the peers call for. -/
theorem finalize_eq_iff_outcome (r : FirstRound P) (announcements : PartyMap (Announcement P))
    {workers : Nat} (hw : 0 < workers) (result : Except KeygenError (AcceptedRound P)) :
    r.finalize workers announcements = result ↔ r.Outcome announcements result := by
  rw [finalize_eq_sequential hw]
  constructor
  · rintro rfl
    exact r.outcome_sequential announcements
  · exact sequential_of_outcome

end FirstRound

/-- Four-bit moduli, and challenges of zeros only. -/
def Params.fourBit : Params := { primeBits := 2, limbs := 1, digest := Xof.constant fun _ => false }

/-- An announcement whose proofs commit to `first` and to `second`, with responses of zero. Only
commitments to one verify. -/
def Announcement.fourBit (h1 h2 first second : UInt8) : Announcement .fourBit where
  paillierModulus := .ofByte 15
  modulus := .ofByte 13
  h1 := .ofByte h1
  h2 := .ofByte h2
  firstProof := (Proof.uniform (.ofByte first) (.ofByte 0)).toWire
  secondProof := (Proof.uniform (.ofByte second) (.ofByte 0)).toWire

/-- The round of a party with index zero and the generators two and three. -/
def FirstRound.fourBit : FirstRound .fourBit where
  ownIdx := ⟨0⟩
  params := ⟨.ofByte 13, .ofByte 2, .ofByte 3, .ofByte 1, .ofByte 1, .ofByte 1, .ofByte 1⟩
  announcement := .fourBit 2 3 1 1

/-- The second proof of the first peer and the first proof of the second peer fail. -/
def PartyMap.twoUnproved : PartyMap (Announcement .fourBit) :=
  ((PartyMap.empty.insert ⟨0⟩ (.fourBit 2 3 1 1)).insert ⟨2⟩ (.fourBit 6 7 2 1)).insert ⟨1⟩
    (.fourBit 4 5 1 2)

/-- The announcements of three parties without any fault. -/
def PartyMap.allProved : PartyMap (Announcement .fourBit) :=
  ((PartyMap.empty.insert ⟨0⟩ (.fourBit 2 3 1 1)).insert ⟨2⟩ (.fourBit 6 7 1 1)).insert ⟨1⟩
    (.fourBit 4 5 1 1)

/-- What is kept of a party that has announced the generators `h1` and `h2`. -/
def PeerInfo.fourBit (h1 h2 : UInt8) : PeerInfo .fourBit where
  paillierModulus := .ofByte 15
  modulus := .ofByte 13
  h1 := .ofByte h1
  h2 := .ofByte h2

/-- The round in which the first of the three parties has accepted the other two. -/
def AcceptedRound.fourBit : AcceptedRound .fourBit where
  ownIdx := ⟨0⟩
  params := FirstRound.fourBit.params
  peers := (PartyMap.empty.insert ⟨1⟩ (.fourBit 4 5)).insert ⟨2⟩ (.fourBit 6 7)

/-- Failed first proofs are blamed before failed second ones of parties with a smaller index.
Without any fault, the moduli and generators of the two peers are kept. -/
theorem FirstRound.finalize_eq_iff_outcome_fourBit :
    FirstRound.fourBit.Outcome .twoUnproved (.error (.misbehaved ⟨2⟩ .firstProofFailed)) ∧
      FirstRound.fourBit.Outcome .allProved (.ok .fourBit) :=
  have hw : 0 < 3 := by decide
  ⟨(FirstRound.fourBit.finalize_eq_iff_outcome .twoUnproved hw _).mp (by decide +kernel),
    (FirstRound.fourBit.finalize_eq_iff_outcome .allProved hw _).mp (by decide +kernel)⟩

end DlogProof
