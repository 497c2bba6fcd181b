import DlogProof.Keygen.FirstRound
import DlogProof.Keygen.Pool

namespace DlogProof

/-- The public parameters of another party, accepted after the first round. -/
structure PeerInfo (P : Params) where
  paillierModulus : P.Integer
  modulus : P.Integer
  h1 : P.Integer
  h2 : P.Integer
deriving DecidableEq

/-- What a party keeps after it has accepted all announcements. -/
structure AcceptedRound (P : Params) where
  ownIdx : PartyIdx
  params : LocalParams P
  peers : PartyMap (PeerInfo P)
deriving DecidableEq

/-- The result of verifying one proof. -/
structure Verdict where
  party : PartyIdx
  slot : Slot
  ok : Bool
deriving DecidableEq

variable {P : Params}

namespace Announcement

/-- The first fault of an announcement, where `seen` holds the generators of the parties before
it. -/
def fault? (a : Announcement P) (seen : List P.Integer) : Option Fault :=
  if a.paillierModulus.bits ≠ P.modulusBits then
    some (.paillierModulusSize P.modulusBits a.paillierModulus.bits)
  else if a.h1 = a.h2 then some .h1EqualsH2
  else if a.modulus.bits ≠ P.modulusBits then some (.modulusSize P.modulusBits a.modulus.bits)
  else if a.h1 ∈ seen then some .h1Reused
  else if a.h2 ∈ a.h1 :: seen then some .h2Reused
  else none

def info (a : Announcement P) : PeerInfo P := ⟨a.paillierModulus, a.modulus, a.h1, a.h2⟩

end Announcement

/-- The first announcement with a fault, in ascending order of the parties. -/
def firstFault? : List P.Integer → List (PartyIdx × Announcement P) → Option (PartyIdx × Fault)
  | _, [] => none
  | seen, (party, a) :: peers =>
    match a.fault? seen with
    | some fault => some (party, fault)
    | none => firstFault? (a.h2 :: a.h1 :: seen) peers

/-- The jobs of verifying both proofs of every peer. -/
def verificationJobs (peers : List (PartyIdx × Announcement P)) :
    List (PartyIdx × Announcement P × Slot) :=
  peers.flatMap fun (party, a) => [(party, a, .first), (party, a, .second)]

/-- The message that a verification job sends. -/
def verdictOf : PartyIdx × Announcement P × Slot → Verdict
  | (party, a, slot) => ⟨party, slot, a.verifySlot slot⟩

/-- The smallest index of a list. -/
def leastParty? : List PartyIdx → Option PartyIdx
  | [] => none
  | i :: is =>
    match leastParty? is with
    | none => some i
    | some j => if j < i then some j else some i

/-- The smallest index of a party whose proof in a slot failed. -/
def firstFailure? (slot : Slot) (verdicts : List Verdict) : Option PartyIdx :=
  leastParty? ((verdicts.filter fun v => v.slot = slot && !v.ok).map Verdict.party)

namespace FirstRound

/-- The announcements of all the other parties. -/
def peers (r : FirstRound P) (announcements : PartyMap (Announcement P)) :
    PartyMap (Announcement P) :=
  announcements.erase r.ownIdx

/-- What follows from the verdicts: failed first proofs are blamed before failed second ones,
and lower indices before higher ones. -/
def conclude (r : FirstRound P) (peers : PartyMap (Announcement P)) (verdicts : List Verdict) :
    Except KeygenError (AcceptedRound P) :=
  let expected := 2 * peers.entries.length
  if verdicts.length ≠ expected then
    .error (.ownSide (.missingVerdicts expected verdicts.length))
  else
    match firstFailure? .first verdicts, firstFailure? .second verdicts with
    | some party, _ => .error (.misbehaved party .firstProofFailed)
    | none, some party => .error (.misbehaved party .secondProofFailed)
    | none, none => .ok ⟨r.ownIdx, r.params, peers.map Announcement.info⟩

/-- Checks the announcements of all other parties, and has their proofs verified by `runJobs`. -/
def finalizeWith (r : FirstRound P)
    (runJobs : List (PartyIdx × Announcement P × Slot) → List Verdict)
    (announcements : PartyMap (Announcement P)) : Except KeygenError (AcceptedRound P) :=
  let peers := r.peers announcements
  match firstFault? [r.params.h1, r.params.h2] peers.entries with
  | some (party, fault) => .error (.misbehaved party fault)
  | none => r.conclude peers (runJobs (verificationJobs peers.entries))

/-- Checks the announcements of all other parties, and verifies their proofs on a pool. -/
def finalize (r : FirstRound P) (workers : Nat) (announcements : PartyMap (Announcement P)) :
    Except KeygenError (AcceptedRound P) :=
  r.finalizeWith (runBatch workers verdictOf) announcements

end FirstRound

end DlogProof
