import DlogProof.Proof.Challenge
import Mathlib.Algebra.Group.Nat.Defs
import Mathlib.Data.List.Basic

namespace DlogProof

theorem beBytes_inj {n v w : Nat} (hv : v < 256 ^ n) (hw : w < 256 ^ n) :
    beBytes n v = beBytes n w ↔ v = w := by
  refine ⟨fun h => ?_, congrArg _⟩
  have he := congrArg beValue h
  rwa [beValue_beBytes, beValue_beBytes, Nat.mod_eq_of_lt hv, Nat.mod_eq_of_lt hw] at he

namespace Uint

variable {limbs : Nat}

theorem toBytes_injective : Function.Injective (toBytes : Uint limbs → List UInt8) := by
  intro a b h
  apply ext_val
  simpa only [beValue_toBytes] using congrArg beValue h

theorem val_injective : Function.Injective (val : Uint limbs → Nat) := fun _ _ => ext_val

end Uint

/-- The length in front of a string tells where the string ends. -/
theorem chunk_append_inj {s s' rest rest' : List UInt8} (hs : s.length < 2 ^ 64)
    (hs' : s'.length < 2 ^ 64) :
    chunk s ++ rest = chunk s' ++ rest' ↔ s = s' ∧ rest = rest' := by
  constructor
  · intro h
    rw [chunk, chunk, List.append_assoc, List.append_assoc] at h
    obtain ⟨hlen, htail⟩ := List.append_inj h (by simp only [beBytes_length])
    exact List.append_inj htail ((beBytes_inj hs hs').mp hlen)
  · rintro ⟨rfl, rfl⟩
    rfl

theorem chunk_ne_nil (s : List UInt8) : chunk s ≠ [] := by
  simp [chunk, beBytes]

theorem transcriptOf_cons (s : List UInt8) (strings : List (List UInt8)) :
    transcriptOf (s :: strings) = chunk s ++ transcriptOf strings :=
  List.flatMap_cons

theorem transcriptOf_eq_nil_iff {strings : List (List UInt8)} :
    transcriptOf strings = [] ↔ strings = [] := by
  cases strings with
  | nil => simp [transcriptOf]
  | cons s strings => simp [transcriptOf_cons, chunk_ne_nil]

/-- The bytes that are fed for a sequence of strings determine the sequence. -/
theorem transcriptOf_inj {strings strings' : List (List UInt8)}
    (h : ∀ s ∈ strings, s.length < 2 ^ 64) (h' : ∀ s ∈ strings', s.length < 2 ^ 64) :
    transcriptOf strings = transcriptOf strings' ↔ strings = strings' := by
  -- Both sequences are taken apart together, one chunk at a time.
  induction strings generalizing strings' with
  | nil => rw [eq_comm, show transcriptOf [] = [] from rfl, transcriptOf_eq_nil_iff, eq_comm]
  | cons s strings ih =>
    cases strings' with
    | nil => exact transcriptOf_eq_nil_iff
    | cons s' strings' =>
      rw [List.forall_mem_cons] at h h'
      rw [transcriptOf_cons, transcriptOf_cons, chunk_append_inj h.1 h'.1, ih h.2 h'.2,
        List.cons.injEq]

namespace Statement

variable {limbs limbs' : Nat}

/-- The byte strings that are hashed for a statement and its commitments. -/
def hashedStrings (s : Statement limbs) (commitments : List (Uint limbs)) : List (List UInt8) :=
  domainTag :: s.base.toBytes :: s.power.toBytes :: s.modulus.toBytes ::
    commitments.map Uint.toBytes

theorem length_lt_of_mem_hashedStrings {s : Statement limbs} {commitments : List (Uint limbs)}
    (hw : Uint.byteWidth limbs < 2 ^ 64) :
    ∀ bytes ∈ s.hashedStrings commitments, bytes.length < 2 ^ 64 := by
  simp only [hashedStrings, List.forall_mem_cons, List.forall_mem_map, Uint.toBytes_length]
  exact ⟨by decide, hw, hw, hw, fun _ _ => hw⟩

theorem hashedStrings_inj {s s' : Statement limbs} {commitments commitments' : List (Uint limbs)} :
    s.hashedStrings commitments = s'.hashedStrings commitments' ↔
      s.base.val = s'.base.val ∧ s.power.val = s'.power.val ∧ s.modulus.val = s'.modulus.val ∧
        commitments.map Uint.val = commitments'.map Uint.val := by
  rw [Uint.val_injective.list_map.eq_iff, Uint.val_inj, Uint.val_inj, Uint.val_inj]
  simp only [hashedStrings, List.cons.injEq, true_and, Uint.toBytes_injective.eq_iff,
    Uint.toBytes_injective.list_map.eq_iff]

theorem limbs_eq_of_hashedStrings_eq {s : Statement limbs} {s' : Statement limbs'}
    {commitments : List (Uint limbs)} {commitments' : List (Uint limbs')}
    (h : s.hashedStrings commitments = s'.hashedStrings commitments') : limbs = limbs' := by
  have hbase : s.base.toBytes = s'.base.toBytes := by
    simp only [hashedStrings, List.cons.injEq] at h
    exact h.2.1
  -- Integers are hashed in full width, whatever their values.
  have hwidth : Uint.byteWidth limbs = Uint.byteWidth limbs' := by
    simpa only [Uint.toBytes_length] using congrArg List.length hbase
  simp only [Uint.byteWidth] at hwidth
  omega

/-- What is hashed determines the width of the integers, the statement, and the commitments in
their order. -/
theorem transcript_eq_iff {s : Statement limbs} {s' : Statement limbs'}
    {commitments : List (Uint limbs)} {commitments' : List (Uint limbs')}
    (hw : Uint.byteWidth limbs < 2 ^ 64) (hw' : Uint.byteWidth limbs' < 2 ^ 64) :
    s.transcript commitments = s'.transcript commitments' ↔
      limbs = limbs' ∧ s.base.val = s'.base.val ∧ s.power.val = s'.power.val ∧
        s.modulus.val = s'.modulus.val ∧
        commitments.map Uint.val = commitments'.map Uint.val := by
  have hstrings : s.transcript commitments = s'.transcript commitments' ↔
      s.hashedStrings commitments = s'.hashedStrings commitments' :=
    transcriptOf_inj (length_lt_of_mem_hashedStrings hw) (length_lt_of_mem_hashedStrings hw')
  rw [hstrings]
  constructor
  · intro h
    obtain rfl := limbs_eq_of_hashedStrings_eq h
    exact ⟨rfl, hashedStrings_inj.mp h⟩
  · rintro ⟨rfl, h⟩
    exact hashedStrings_inj.mpr h

end Statement

/-- The fed bytes determine the sequence of strings, the first of which is the domain tag. So a
challenge is bound to the width of the integers, to the whole statement, and to every commitment at
its place. -/
theorem transcript_binding :
    (∀ strings strings' : List (List UInt8),
      (∀ s ∈ strings, s.length < 2 ^ 64) → (∀ s ∈ strings', s.length < 2 ^ 64) →
      (transcriptOf strings = transcriptOf strings' ↔ strings = strings')) ∧
    ∀ (limbs limbs' : Nat) (s : Statement limbs) (s' : Statement limbs')
      (commitments : List (Uint limbs)) (commitments' : List (Uint limbs')),
      Uint.byteWidth limbs < 2 ^ 64 → Uint.byteWidth limbs' < 2 ^ 64 →
      (s.transcript commitments = s'.transcript commitments' ↔
        limbs = limbs' ∧ s.base.val = s'.base.val ∧ s.power.val = s'.power.val ∧
          s.modulus.val = s'.modulus.val ∧
          commitments.map Uint.val = commitments'.map Uint.val) := by
  constructor
  · intro strings strings' h h'
    exact transcriptOf_inj h h'
  · intro limbs limbs' s s' commitments commitments' hw hw'
    exact Statement.transcript_eq_iff hw hw'

/-- Neither a moved boundary nor a wider type gives the same bytes. -/
theorem transcript_binding_moved :
    transcriptOf [[0x41, 0x42], [0x43, 0x44]] ≠ transcriptOf [[0x41, 0x42, 0x43], [0x44]] ∧
      (⟨⟨2, by decide⟩, ⟨4, by decide⟩, ⟨7, by decide⟩⟩ : Statement 1).transcript [] ≠
        (⟨⟨2, by decide⟩, ⟨4, by decide⟩, ⟨7, by decide⟩⟩ : Statement 2).transcript [] := by
  constructor
  · intro h
    exact absurd ((transcript_binding.1 _ _ (by decide) (by decide)).mp h) (by decide)
  · intro h
    exact absurd ((transcript_binding.2 _ _ _ _ _ _ (by decide) (by decide)).mp h).1 (by decide)

end DlogProof
