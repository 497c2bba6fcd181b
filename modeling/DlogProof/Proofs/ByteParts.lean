import DlogProof.Proof.Parts
import DlogProof.Proofs.Prover

namespace DlogProof

variable {limbs : Nat}

theorem significantBytes_head_ne_zero {bytes rest : List UInt8} {b : UInt8}
    (h : significantBytes bytes = b :: rest) : b ≠ 0 := by
  have hb := List.head?_dropWhile_not (· == (0 : UInt8)) bytes
  rw [significantBytes] at h
  rw [h] at hb
  simpa using hb

/-- Without its leading zeros, a byte string is as short as its value allows. -/
theorem significantBytes_length_le_iff {bytes : List UInt8} {n : ℕ} :
    (significantBytes bytes).length ≤ n ↔ beValue bytes < 256 ^ n := by
  rw [← beValue_significantBytes bytes]
  constructor
  · intro h
    exact (beValue_lt _).trans_le (Nat.pow_le_pow_right (by decide) h)
  · intro h
    cases hs : significantBytes bytes with
    | nil => exact Nat.zero_le n
    | cons b rest =>
      rw [hs, beValue_cons] at h
      have hb : 0 < b.toNat := Nat.pos_of_ne_zero fun hz =>
        significantBytes_head_ne_zero hs (UInt8.toNat.inj hz)
      -- The first byte is not zero, so the value is at least the weight of that byte.
      have hlow : 256 ^ rest.length < 256 ^ n :=
        calc 256 ^ rest.length ≤ 256 ^ rest.length * b.toNat := Nat.le_mul_of_pos_right _ hb
          _ < 256 ^ n := by omega
      exact (Nat.pow_lt_pow_iff_right (by decide)).mp hlow

namespace Uint

/-- Reading succeeds exactly on the strings whose value fits, however long they are. -/
theorem ofBytes_eq_ok_iff {bytes : List UInt8} {v : Uint limbs} :
    ofBytes bytes = .ok v ↔ v.val = beValue bytes := by
  unfold ofBytes
  constructor
  · intro h
    split at h
    · cases h
      exact beValue_significantBytes bytes
    · cases h
  · intro hv
    have hfit : beValue bytes < 256 ^ byteWidth limbs := by
      rw [← hv, pow_byteWidth]
      exact v.val_lt
    rw [dif_pos (significantBytes_length_le_iff.mpr hfit)]
    congr 1
    exact ext_val ((beValue_significantBytes bytes).trans hv.symm)

theorem beValue_toMinimalBytes (a : Uint limbs) : beValue a.toMinimalBytes = a.val := by
  rw [toMinimalBytes, beValue_significantBytes, beValue_toBytes]

end Uint

theorem valuesOfParts_cons_eq_ok_iff {width index : ℕ} {part : List UInt8}
    {parts : List (List UInt8)} {values : List (Uint limbs)} :
    valuesOfParts width index (part :: parts) = .ok values ↔
      part.length = width ∧ ∃ v rest, values = v :: rest ∧ Uint.ofBytes part = .ok v ∧
        valuesOfParts width (index + 1) parts = .ok rest := by
  rw [valuesOfParts]
  by_cases hw : part.length = width
  · rw [if_neg (not_not.mpr hw), and_iff_right hw]
    cases (Uint.ofBytes part : Except EncodingError (Uint limbs)) with
    | error e => simp
    | ok v =>
      cases (valuesOfParts width (index + 1) parts : Except _ (List (Uint limbs))) with
      | error e => simp [Except.map]
      | ok rest => simp [Except.map, eq_comm]
  · rw [if_pos hw]
    simp [hw]

/-- All strings have the required length, and each gives its value. -/
theorem valuesOfParts_eq_ok_iff {width index : ℕ} {parts : List (List UInt8)}
    {values : List (Uint limbs)} :
    valuesOfParts width index parts = .ok values ↔
      (∀ part ∈ parts, part.length = width) ∧ values.map Uint.val = parts.map beValue := by
  induction parts generalizing index values with
  | nil => cases values <;> simp [valuesOfParts]
  | cons part parts ih =>
    rw [valuesOfParts_cons_eq_ok_iff, List.forall_mem_cons, List.map_cons, List.map_eq_cons_iff,
      and_assoc]
    apply and_congr_right
    intro _
    simp only [Uint.ofBytes_eq_ok_iff, ih]
    constructor
    · rintro ⟨v, rest, rfl, hv, hlen, hrest⟩
      exact ⟨hlen, v, rest, rfl, hv, hrest⟩
    · rintro ⟨hlen, v, rest, rfl, hv, hrest⟩
      exact ⟨v, rest, rfl, hv, hlen, hrest⟩

/-- The length of the first byte string, zero if there is none. -/
def firstLength (parts : List (List UInt8)) : ℕ := (parts.getD 0 []).length

theorem head?_length_getD (parts : List (List UInt8)) :
    (parts.head?.map List.length).getD 0 = firstLength parts := by
  cases parts <;> rfl

/-- Byte strings of one length have that of the first. -/
theorem exists_length_iff {parts : List (List UInt8)} :
    (∃ width, ∀ part ∈ parts, part.length = width) ↔
      ∀ part ∈ parts, part.length = firstLength parts := by
  constructor
  · rintro ⟨width, hwidth⟩
    cases parts with
    | nil => simp
    | cons first rest =>
      intro part hpart
      exact (hwidth part hpart).trans (hwidth first List.mem_cons_self).symm
  · intro h
    exact ⟨firstLength parts, h⟩

theorem foldl_max_le_iff {l : List ℕ} {acc n : ℕ} :
    l.foldl max acc ≤ n ↔ acc ≤ n ∧ ∀ m ∈ l, m ≤ n := by
  induction l generalizing acc with
  | nil => simp
  | cons m l ih => rw [List.foldl_cons, ih, Nat.max_le, List.forall_mem_cons, and_assoc]

theorem longestLength_le_iff {strings : List (List UInt8)} {n : ℕ} :
    longestLength strings ≤ n ↔ ∀ s ∈ strings, s.length ≤ n := by
  rw [longestLength, foldl_max_le_iff, List.forall_mem_map, and_iff_right (Nat.zero_le n)]

theorem length_le_longestLength {strings : List (List UInt8)} {s : List UInt8}
    (h : s ∈ strings) : s.length ≤ longestLength strings :=
  longestLength_le_iff.mp le_rfl s h

namespace Proof

theorem ofHalves_eq_ok_iff {commitments responses : List (Uint limbs)} {proof : Proof limbs} :
    ofHalves commitments responses = .ok proof ↔
      proof.commitments = commitments ∧ proof.responses = responses := by
  rw [← ofHalves_toOption_eq_some_iff]
  cases ofHalves commitments responses <;> simp [Except.toOption]

/-- Twice as many values as there are repetitions make the two halves of a proof. -/
theorem exists_append_eq {values : List (Uint limbs)} (h : values.length = 2 * iterations) :
    ∃ proof : Proof limbs, proof.commitments ++ proof.responses = values := by
  have hc : (values.take iterations).length = iterations := by
    rw [List.length_take]
    omega
  have hr : (values.drop iterations).length = iterations := by
    rw [List.length_drop]
    omega
  exact ⟨⟨_, _, hc, hr⟩, List.take_append_drop _ _⟩

theorem ofHalves_append (proof : Proof limbs) :
    ofHalves ((proof.commitments ++ proof.responses).take iterations)
      ((proof.commitments ++ proof.responses).drop iterations) = .ok proof := by
  have hl := proof.commitments_length
  exact ofHalves_eq_ok_iff.mpr ⟨by simp [← hl], by simp [← hl]⟩

/-- A proof is read from byte strings of the right number and of equal lengths, whose values are
its commitments and responses. -/
theorem ofParts_eq_ok_iff {parts : List (List UInt8)} {proof : Proof limbs} :
    ofParts parts = .ok proof ↔
      parts.length = 2 * iterations ∧ (∃ width, ∀ part ∈ parts, part.length = width) ∧
        (proof.commitments ++ proof.responses).map Uint.val = parts.map beValue := by
  rw [exists_length_iff]
  unfold ofParts
  rw [head?_length_getD]
  constructor
  · intro h
    split at h
    · cases h
    · rename_i hcount
      split at h
      · cases h
      · rename_i values hvalues
        obtain ⟨hwidth, hval⟩ := valuesOfParts_eq_ok_iff.mp hvalues
        split at h
        · cases h
        · rename_i made hmade
          cases h
          obtain ⟨hc, hr⟩ := ofHalves_eq_ok_iff.mp hmade
          refine ⟨not_not.mp hcount, hwidth, ?_⟩
          rw [hc, hr, List.take_append_drop, hval]
  · rintro ⟨hcount, hwidth, hval⟩
    rw [if_neg (not_not.mpr hcount), valuesOfParts_eq_ok_iff.mpr ⟨hwidth, hval⟩]
    simp only [ofHalves_append]

/-- Every proof survives being written and read. -/
theorem ofWire_toWire (proof : Proof limbs) : ofWire proof.toWire = .ok proof := by
  have hl := proof.commitments_length
  have hr := proof.responses_length
  rw [ofWire, toWire, ofParts_eq_ok_iff, toParts]
  refine ⟨by simp only [List.length_map, List.length_append]; omega,
    ⟨longestLength ((proof.commitments ++ proof.responses).map Uint.toMinimalBytes), ?_⟩, ?_⟩
  · intro part hpart
    obtain ⟨bytes, hbytes, rfl⟩ := List.mem_map.mp hpart
    exact padBytes_length (length_le_longestLength hbytes)
  · rw [List.map_map, List.map_map]
    apply List.map_congr_left
    intro a _
    exact ((beValue_padBytes _ _).trans a.beValue_toMinimalBytes).symm

end Proof

end DlogProof
