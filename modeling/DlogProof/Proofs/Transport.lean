import DlogProof.Proofs.BinaryForm
import DlogProof.Proofs.JsonForm

namespace DlogProof

variable {P : Params}

/-- Reads a value from the front of a byte string, and gives the number of bytes that it took. -/
def Binary.decodeFront {α : Type} (read : Binary.Reader α) (bytes : List UInt8) :
    Except Binary.Error (α × Nat) :=
  (read bytes).map fun (a, rest) => (a, bytes.length - rest.length)

theorem Binary.Reads.decodeFront_eq {α : Type} {read : Binary.Reader α} {bytes : List UInt8}
    {a : α} (h : Reads read bytes a) (rest : List UInt8) :
    decodeFront read (bytes ++ rest) = .ok (a, bytes.length) := by
  rw [decodeFront, h rest]
  simp only [Except.map, List.length_append, Nat.add_sub_cancel]

namespace Announcement

theorem decodeFront_writeAnnouncement {a : Announcement P} (h : a.Addressable)
    (rest : List UInt8) :
    Binary.decodeFront Binary.readAnnouncement (Binary.writeAnnouncement a ++ rest) =
      .ok (a, (Binary.writeAnnouncement a).length) :=
  (Binary.reads_readAnnouncement h).decodeFront_eq rest

/-- An announcement arrives unchanged in both forms, whether its proofs decode or not. Its JSON
fields can come in any order, and its binary form can be followed by anything. So the verdicts on
its proofs are those of the sender. -/
theorem transport (a : Announcement P) :
    Json.readAnnouncement (Json.writeAnnouncement a) = .ok a ∧
      (∀ fields, fields.Perm (Json.announcementFields a) →
        Json.readAnnouncement (.object fields) = .ok a) ∧
      (a.Addressable → ∀ rest,
        Binary.decodeFront Binary.readAnnouncement (Binary.writeAnnouncement a ++ rest) =
          .ok (a, (Binary.writeAnnouncement a).length)) ∧
      ∀ received : Announcement P,
        (Json.readAnnouncement (Json.writeAnnouncement a) = .ok received ∨
          a.Addressable ∧ ∃ rest length,
            Binary.decodeFront Binary.readAnnouncement (Binary.writeAnnouncement a ++ rest) =
              .ok (received, length)) →
        ∀ slot, received.verifySlot slot = a.verifySlot slot := by
  have hjson : Json.readAnnouncement (Json.writeAnnouncement a) = .ok a :=
    Json.readAnnouncement_of_perm (List.Perm.refl (Json.announcementFields a))
  refine ⟨hjson, fun fields => Json.readAnnouncement_of_perm, decodeFront_writeAnnouncement, ?_⟩
  rintro received (h | ⟨ha, rest, length, h⟩) slot
  · rw [hjson, Except.ok.injEq] at h
    rw [h]
  · rw [decodeFront_writeAnnouncement ha, Except.ok.injEq, Prod.mk.injEq] at h
    rw [h.1]

/-- An announcement with two strings for its first proof, and none for its second one. -/
def truncated : Announcement .test where
  paillierModulus := ⟨15, by decide⟩
  modulus := ⟨13, by decide⟩
  h1 := ⟨2, by decide⟩
  h2 := ⟨3, by decide⟩
  firstProof := ⟨[[1], [2, 3]]⟩
  secondProof := ⟨[]⟩

/-- The announcement arrives, and it is its proofs that are refused. -/
theorem transport_truncated :
    truncated.Addressable ∧
      Binary.decodeFront Binary.readAnnouncement (Binary.writeAnnouncement truncated ++ [0xff]) =
        .ok (truncated, 139) ∧
      ∀ slot, truncated.verifySlot slot = false := by
  have h : truncated.Addressable := by
    refine ⟨by decide, fun slot => ?_⟩
    cases slot <;> exact ⟨by decide, by decide⟩
  refine ⟨h, ?_, fun slot => by cases slot <;> decide +kernel⟩
  rw [(transport truncated).2.2.1 h [0xff]]
  decide +kernel

end Announcement

end DlogProof
