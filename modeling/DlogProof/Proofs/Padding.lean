import DlogProof.Proofs.Acceptance
import Mathlib.Order.Bounds.Basic

namespace DlogProof

variable {limbs : Nat}

/-- The longest length is that of some string, unless there is none. -/
theorem exists_length_eq_longestLength {strings : List (List UInt8)} (h : strings ≠ []) :
    ∃ s ∈ strings, s.length = longestLength strings := by
  by_contra hno
  push Not at hno
  -- Otherwise all strings are shorter than that, and so by one byte at least.
  have hlt : ∀ s ∈ strings, s.length < longestLength strings := fun s hs =>
    lt_of_le_of_ne (length_le_longestLength hs) (hno s hs)
  have hle : longestLength strings ≤ longestLength strings - 1 :=
    longestLength_le_iff.mpr fun s hs => Nat.le_sub_one_of_lt (hlt s hs)
  obtain ⟨s, hs⟩ := List.exists_mem_of_ne_nil strings h
  have := hlt s hs
  omega

theorem Uint.toMinimalBytes_length_le_iff {a : Uint limbs} {n : ℕ} :
    a.toMinimalBytes.length ≤ n ↔ a.val < 256 ^ n := by
  rw [toMinimalBytes, significantBytes_length_le_iff, beValue_toBytes]

namespace Proof

/-- The commitments followed by the responses. -/
def values (proof : Proof limbs) : List (Uint limbs) := proof.commitments ++ proof.responses

/-- The length of the longest minimal encoding among the values of a proof. -/
def width (proof : Proof limbs) : ℕ := longestLength (proof.values.map Uint.toMinimalBytes)

theorem values_length (proof : Proof limbs) : proof.values.length = 2 * iterations := by
  rw [values, List.length_append, proof.commitments_length, proof.responses_length, Nat.two_mul]

theorem toParts_eq_map (proof : Proof limbs) :
    proof.toParts = proof.values.map fun a => padBytes proof.width a.toMinimalBytes := by
  rw [toParts, ← values, List.map_map]
  rfl

/-- The width is the least number of bytes in which all the values can be written. -/
theorem width_le_iff {proof : Proof limbs} {n : ℕ} :
    proof.width ≤ n ↔ ∀ a ∈ proof.values, a.val < 256 ^ n := by
  rw [width, longestLength_le_iff, List.forall_mem_map]
  simp only [Uint.toMinimalBytes_length_le_iff]

theorem width_eq_zero_iff {proof : Proof limbs} :
    proof.width = 0 ↔ ∀ a ∈ proof.values, a.val = 0 := by
  rw [← Nat.le_zero, width_le_iff]
  simp only [pow_zero, Nat.lt_one_iff]

theorem isGreatest_width (proof : Proof limbs) :
    IsGreatest {n | ∃ a ∈ proof.values, a.toMinimalBytes.length = n} proof.width := by
  have hne : proof.values.map Uint.toMinimalBytes ≠ [] := by
    rw [← List.length_pos_iff, List.length_map, values_length]
    decide
  constructor
  · obtain ⟨s, hs, hlen⟩ := exists_length_eq_longestLength hne
    obtain ⟨a, ha, rfl⟩ := List.mem_map.mp hs
    exact ⟨a, ha, hlen⟩
  · rintro n ⟨a, ha, rfl⟩
    exact length_le_longestLength (List.mem_map_of_mem ha)

theorem length_of_mem_toParts {proof : Proof limbs} {part : List UInt8}
    (h : part ∈ proof.toParts) : part.length = proof.width := by
  rw [toParts_eq_map] at h
  obtain ⟨a, ha, rfl⟩ := List.mem_map.mp h
  exact padBytes_length ((isGreatest_width proof).2 ⟨a, ha, rfl⟩)

/-- Every proof is written as byte strings of the length of its longest minimal encoding, which is
the least number of bytes in which all values can be written. Each value stands at its place, and
the proof is read back unchanged. -/
theorem parts_roundTrip (proof : Proof limbs) :
    proof.toParts.length = 2 * iterations ∧
      (∃ width, (∀ part ∈ proof.toParts, part.length = width) ∧
        IsGreatest {n | ∃ a ∈ proof.values, a.toMinimalBytes.length = n} width ∧
        (∀ n, width ≤ n ↔ ∀ a ∈ proof.values, a.val < 256 ^ n) ∧
        (width = 0 ↔ ∀ a ∈ proof.values, a.val = 0)) ∧
      (∀ i, proof.toWire.commitmentValue i = (proof.commitment i).val ∧
        proof.toWire.responseValue i = (proof.response i).val) ∧
      ofParts proof.toParts = .ok proof ∧ ofWire proof.toWire = .ok proof := by
  have hread := proof.ofWire_toWire
  refine ⟨?_, ⟨proof.width, fun part => length_of_mem_toParts, proof.isGreatest_width,
    fun n => width_le_iff, width_eq_zero_iff⟩, fun i => ?_, hread, hread⟩
  · rw [toParts_eq_map, List.length_map, values_length]
  · exact ⟨(commitment_val_of_ofWire hread i).symm, (response_val_of_ofWire hread i).symm⟩

/-- Commitments of one, and responses of zero except for the first, which takes all eight bytes. -/
def oneWide : Proof 1 where
  commitments := List.replicate iterations (.ofByte 1)
  responses := ⟨256 ^ 8 - 1, by decide⟩ :: List.replicate 127 (.ofByte 0)
  commitments_length := List.length_replicate
  responses_length := by simp [iterations]

/-- One wide value makes all byte strings as long as it is, and stays at its place. -/
theorem parts_roundTrip_oneWide :
    oneWide.toParts.length = 256 ∧ (∀ part ∈ oneWide.toParts, part.length = 8) ∧
      oneWide.toWire.commitmentValue ⟨0, by decide⟩ = 1 ∧
      oneWide.toWire.responseValue ⟨0, by decide⟩ = 256 ^ 8 - 1 ∧
      oneWide.toWire.responseValue ⟨1, by decide⟩ = 0 ∧
      ofParts oneWide.toParts = .ok oneWide := by
  obtain ⟨hcount, ⟨width, hwidth, -, hbytes, -⟩, hplaces, hread, -⟩ := oneWide.parts_roundTrip
  have hfit : width ≤ 8 := (hbytes 8).mpr (by decide +kernel)
  have htight : ¬ width ≤ 7 := (hbytes 7).not.mpr (by decide +kernel)
  have heq : width = 8 := by omega
  exact ⟨hcount, heq ▸ hwidth, (hplaces _).1, (hplaces _).2, (hplaces _).2, hread⟩

end Proof

end DlogProof
