import DlogProof.Proofs.NormalForm
import Mathlib.Data.Nat.Digits.Defs

namespace DlogProof

/-- The bytes of a string, the last one first, are the digits of its value to the base 256. -/
theorem beValue_eq_ofDigits (bytes : List UInt8) :
    beValue bytes = Nat.ofDigits 256 (bytes.reverse.map UInt8.toNat) := by
  induction bytes with
  | nil => rfl
  | cons b bytes ih =>
    rw [beValue_cons, ih, List.reverse_cons, List.map_append, Nat.ofDigits_append, Nat.add_comm,
      List.length_map, List.length_reverse, List.map_singleton, Nat.ofDigits_singleton]

theorem significantBytes_eq_self_iff {bytes : List UInt8} :
    significantBytes bytes = bytes ↔ bytes.head? ≠ some 0 := by
  cases bytes with
  | nil => exact iff_of_true rfl (by simp)
  | cons b rest =>
    constructor
    · intro h
      rw [List.head?_cons, ne_eq, Option.some.injEq]
      exact significantBytes_head_ne_zero h
    · intro h
      exact List.dropWhile_cons_of_neg (by simpa using h)

theorem significantBytes_replicate_append (n : ℕ) (bytes : List UInt8) :
    significantBytes (List.replicate n 0 ++ bytes) = significantBytes bytes :=
  List.dropWhile_append_of_pos fun b hb => by rw [List.eq_of_mem_replicate hb]; rfl

/-- Without their leading zeros, byte strings are told apart by their values alone. -/
theorem significantBytes_eq_iff {a b : List UInt8} :
    significantBytes a = significantBytes b ↔ beValue a = beValue b := by
  constructor
  · intro h
    rw [← beValue_significantBytes a, h, beValue_significantBytes]
  · intro h
    have hlength : ∀ n, (significantBytes a).length ≤ n ↔ (significantBytes b).length ≤ n :=
      fun n => by rw [significantBytes_length_le_iff, significantBytes_length_le_iff, h]
    apply eq_of_beValue_eq (eq_of_forall_ge_iff hlength)
    rw [beValue_significantBytes, beValue_significantBytes, h]

namespace Uint

variable {limbs : ℕ}

/-- The limbs are written from the last one, which is the most significant, to the first. -/
theorem limbBytes_eq_flatMap (v : Uint limbs) (n : ℕ) :
    v.limbBytes n = (List.range n).reverse.flatMap fun i => beBytes 8 (v.limb i).toNat := by
  induction n with
  | zero => rfl
  | succ n ih =>
    rw [limbBytes, ih, List.range_succ, List.reverse_append, List.reverse_singleton,
      List.singleton_append, List.flatMap_cons]

theorem ofFullBytes_eq_ok_iff {bytes : List UInt8} {v : Uint limbs} :
    ofFullBytes bytes = .ok v ↔ v.toBytes = bytes := by
  constructor
  · intro h
    unfold ofFullBytes at h
    split at h
    · rename_i hlength
      cases h
      apply eq_of_beValue_eq
      · rw [toBytes_length, hlength]
      · rw [beValue_toBytes]
        rfl
    · cases h
  · rintro rfl
    exact v.ofFullBytes_toBytes

theorem exists_ofFullBytes_eq_ok_iff {bytes : List UInt8} :
    (∃ v : Uint limbs, ofFullBytes bytes = .ok v) ↔ bytes.length = byteWidth limbs := by
  constructor
  · rintro ⟨v, h⟩
    rw [← ofFullBytes_eq_ok_iff.mp h, toBytes_length]
  · intro h
    exact ⟨_, dif_pos h⟩

/-- The minimal encoding is the only byte string of its value that starts with no zero. -/
theorem eq_toMinimalBytes_iff {bytes : List UInt8} {v : Uint limbs} :
    bytes = v.toMinimalBytes ↔ beValue bytes = v.val ∧ bytes.head? ≠ some 0 := by
  rw [← significantBytes_eq_self_iff]
  constructor
  · rintro rfl
    have hvalue : beValue v.toMinimalBytes = beValue v.toBytes := beValue_significantBytes _
    exact ⟨v.beValue_toMinimalBytes, significantBytes_eq_iff.mpr hvalue⟩
  · rintro ⟨hvalue, hself⟩
    rw [← hself, toMinimalBytes, significantBytes_eq_iff, hvalue, beValue_toBytes]

theorem toMinimalBytes_length (v : Uint limbs) : v.toMinimalBytes.length = (v.bits + 7) / 8 := by
  apply eq_of_forall_ge_iff
  intro n
  rw [toMinimalBytes_length_le_iff, show (256 : ℕ) = 2 ^ 8 from rfl, ← Nat.pow_mul, ← bits_le_iff]
  omega

theorem exists_ofBytes_eq_ok_iff {bytes : List UInt8} :
    (∃ v : Uint limbs, ofBytes bytes = .ok v) ↔ beValue bytes < 256 ^ byteWidth limbs := by
  rw [pow_byteWidth]
  constructor
  · rintro ⟨v, h⟩
    rw [← ofBytes_eq_ok_iff.mp h]
    exact v.val_lt
  · intro h
    exact ⟨⟨beValue bytes, h⟩, ofBytes_eq_ok_iff.mpr rfl⟩

theorem ofBytes_replicate_append (n : ℕ) (bytes : List UInt8) :
    (ofBytes (List.replicate n 0 ++ bytes) : Except EncodingError (Uint limbs)) =
      ofBytes bytes := by
  simp only [ofBytes, significantBytes_replicate_append]

/-- A string that fits is padded to exactly the full width before it is read. -/
theorem ofBytes_eq_ofFullBytes {bytes : List UInt8}
    (h : (significantBytes bytes).length ≤ byteWidth limbs) :
    (padBytes (byteWidth limbs) (significantBytes bytes)).length = byteWidth limbs ∧
      (ofBytes bytes : Except EncodingError (Uint limbs)) =
        ofFullBytes (padBytes (byteWidth limbs) (significantBytes bytes)) := by
  have hlength := padBytes_length h
  refine ⟨hlength, ?_⟩
  rw [ofBytes, dif_pos h, ofFullBytes, dif_pos hlength]
  congr 1
  exact ext_val (beValue_padBytes _ _).symm

/-- The encodings of an integer agree with each other and with their readers. In full width it is
written limb by limb to the base 256, and read from those bytes only. Without leading zeros it has
one encoding, as short as its bits allow. It is read from a string of any length that has its value,
so from both encodings, with any number of zeros in front. -/
theorem encodings_consistent (limbs : ℕ) (v : Uint limbs) :
    (v.toBytes.length = byteWidth limbs ∧
      Nat.ofDigits 256 (v.toBytes.reverse.map UInt8.toNat) = v.val ∧
      v.toBytes = (List.range limbs).reverse.flatMap fun i => beBytes 8 (v.limb i).toNat) ∧
    (∀ bytes, (ofFullBytes bytes = .ok v ↔ v.toBytes = bytes) ∧
      ((∃ u : Uint limbs, ofFullBytes bytes = .ok u) ↔ bytes.length = byteWidth limbs)) ∧
    ((∀ bytes, bytes = v.toMinimalBytes ↔ beValue bytes = v.val ∧ bytes.head? ≠ some 0) ∧
      v.toMinimalBytes.length = (v.bits + 7) / 8 ∧ (v.toMinimalBytes = [] ↔ v.val = 0)) ∧
    (∀ bytes, (ofBytes bytes = .ok v ↔ beValue bytes = v.val) ∧
      ((∃ u : Uint limbs, ofBytes bytes = .ok u) ↔ beValue bytes < 256 ^ byteWidth limbs) ∧
      (beValue bytes < 256 ^ byteWidth limbs →
        (padBytes (byteWidth limbs) (significantBytes bytes)).length = byteWidth limbs ∧
          (ofBytes bytes : Except EncodingError (Uint limbs)) =
            ofFullBytes (padBytes (byteWidth limbs) (significantBytes bytes)))) ∧
    ofBytes v.toBytes = .ok v ∧ ofBytes v.toMinimalBytes = .ok v ∧
    ∀ n bytes, (ofBytes (List.replicate n 0 ++ bytes) : Except EncodingError (Uint limbs)) =
      ofBytes bytes := by
  have hread : ∀ bytes, ofBytes bytes = .ok v ↔ beValue bytes = v.val := fun bytes =>
    ofBytes_eq_ok_iff.trans eq_comm
  refine ⟨⟨v.toBytes_length, ?_, v.limbBytes_eq_flatMap limbs⟩,
    fun bytes => ⟨ofFullBytes_eq_ok_iff, exists_ofFullBytes_eq_ok_iff⟩,
    ⟨fun bytes => eq_toMinimalBytes_iff, v.toMinimalBytes_length, ?_⟩,
    fun bytes => ⟨hread bytes, exists_ofBytes_eq_ok_iff, fun hfit => ?_⟩,
    (hread _).mpr v.beValue_toBytes, (hread _).mpr v.beValue_toMinimalBytes,
    ofBytes_replicate_append⟩
  · rw [← beValue_eq_ofDigits, beValue_toBytes]
  · rw [← List.length_eq_zero_iff, ← Nat.le_zero, toMinimalBytes_length_le_iff, Nat.pow_zero,
      Nat.lt_one_iff]
  · exact ofBytes_eq_ofFullBytes (significantBytes_length_le_iff.mpr hfit)

end Uint

end DlogProof
