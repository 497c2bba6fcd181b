import DlogProof.Proofs.Acceptance

namespace DlogProof

variable {limbs : Nat}

theorem Uint.ofBytes_eq_error_iff {bytes : List UInt8} {e : EncodingError} :
    (ofBytes bytes : Except EncodingError (Uint limbs)) = .error e ↔
      2 ^ (8 * byteWidth limbs) ≤ beValue bytes ∧
        e = .tooLarge (significantBytes bytes).length (byteWidth limbs) := by
  rw [two_pow_byteWidth, ← pow_byteWidth, ← Nat.not_lt, ← significantBytes_length_le_iff]
  unfold ofBytes
  split
  · rename_i hfit
    simp [hfit]
  · rename_i hfit
    simp only [hfit, not_false_eq_true, true_and, Except.error.injEq, eq_comm]

/-- Whether a byte string can be read: it has the length that is asked for, and its value fits. -/
structure ReadablePart (limbs width : ℕ) (part : List UInt8) : Prop where
  length : part.length = width
  fits : beValue part < 2 ^ (8 * Uint.byteWidth limbs)

/-- The error about a byte string at the position `index`. Its length counts before its value. -/
inductive PartError (limbs width index : ℕ) (part : List UInt8) : DecodingError → Prop
  | length : part.length ≠ width →
      PartError limbs width index part (.lengthMismatch index width part.length)
  | value : part.length = width → 2 ^ (8 * Uint.byteWidth limbs) ≤ beValue part →
      PartError limbs width index part (.parse index
        (EncodingError.tooLarge (significantBytes part).length (Uint.byteWidth limbs)).message)

/-- The error about the first byte string that cannot be read, with positions counted from
`index`. -/
def FirstPartError (limbs width index : ℕ) (parts : List (List UInt8)) (e : DecodingError) : Prop :=
  ∃ i part, parts[i]? = some part ∧ (∀ before ∈ parts.take i, ReadablePart limbs width before) ∧
    PartError limbs width (index + i) part e

section Parts

variable {width index : ℕ} {part : List UInt8} {parts : List (List UInt8)} {e found : DecodingError}

theorem PartError.unique (h : PartError limbs width index part found)
    (h' : PartError limbs width index part e) : found = e := by
  cases h with
  | length hne =>
    cases h' with
    | length _ => rfl
    | value hw _ => exact absurd hw hne
  | value hw _ =>
    cases h' with
    | length hne => exact absurd hw hne
    | value _ _ => rfl

theorem ReadablePart.not_partError (h : ReadablePart limbs width part) :
    ¬ PartError limbs width index part e := by
  rintro (hne | ⟨-, hvalue⟩)
  · exact hne h.length
  · exact absurd h.fits (Nat.not_lt.mpr hvalue)

/-- A string that cannot be read has one error, whatever comes after it. -/
theorem PartError.or_iff (h : PartError limbs width index part found) {q : Prop} :
    PartError limbs width index part e ∨ ReadablePart limbs width part ∧ q ↔ found = e := by
  rw [or_iff_left fun hr => hr.1.not_partError h]
  exact ⟨h.unique, fun he => he ▸ h⟩

theorem valuesOfParts_cons_eq_error_iff :
    (valuesOfParts width index (part :: parts) : Except DecodingError (List (Uint limbs))) =
        .error e ↔
      PartError limbs width index part e ∨ ReadablePart limbs width part ∧
        (valuesOfParts width (index + 1) parts : Except DecodingError (List (Uint limbs))) =
          .error e := by
  rw [valuesOfParts]
  by_cases hw : part.length = width
  · rw [if_neg (not_not.mpr hw)]
    cases hb : (Uint.ofBytes part : Except EncodingError (Uint limbs)) with
    | error err =>
      obtain ⟨hvalue, rfl⟩ := Uint.ofBytes_eq_error_iff.mp hb
      rw [(PartError.value hw hvalue).or_iff, Except.error.injEq]
    | ok v =>
      have hpart : ReadablePart limbs width part := by
        refine ⟨hw, ?_⟩
        rw [← Uint.ofBytes_eq_ok_iff.mp hb, Uint.two_pow_byteWidth]
        exact v.val_lt
      rw [or_iff_right hpart.not_partError, and_iff_right hpart]
      cases (valuesOfParts width (index + 1) parts : Except _ (List (Uint limbs))) <;>
        simp [Except.map]
  · rw [if_pos hw, (PartError.length hw).or_iff, Except.error.injEq]

/-- The first string is reported if it cannot be read, and otherwise the rest decides. -/
theorem firstPartError_cons_iff :
    FirstPartError limbs width index (part :: parts) e ↔
      PartError limbs width index part e ∨
        ReadablePart limbs width part ∧ FirstPartError limbs width (index + 1) parts e := by
  constructor
  · rintro ⟨i, found, hi, hbefore, he⟩
    cases i with
    | zero =>
      cases hi
      exact Or.inl he
    | succ i =>
      rw [List.take_succ_cons, List.forall_mem_cons] at hbefore
      rw [List.getElem?_cons_succ] at hi
      exact Or.inr ⟨hbefore.1, i, found, hi, hbefore.2, Nat.add_right_comm index i 1 ▸ he⟩
  · rintro (he | ⟨hpart, i, found, hi, hbefore, he⟩)
    · exact ⟨0, part, rfl, by simp, he⟩
    · refine ⟨i + 1, found, hi, ?_, Nat.add_right_comm index 1 i ▸ he⟩
      rw [List.take_succ_cons, List.forall_mem_cons]
      exact ⟨hpart, hbefore⟩

/-- Reading stops at the first byte string that cannot be read. -/
theorem valuesOfParts_eq_error_iff :
    (valuesOfParts width index parts : Except DecodingError (List (Uint limbs))) = .error e ↔
      FirstPartError limbs width index parts e := by
  induction parts generalizing index with
  | nil => simp [valuesOfParts, FirstPartError]
  | cons part parts ih =>
    rw [valuesOfParts_cons_eq_error_iff, firstPartError_cons_iff, ih]

end Parts

namespace Proof

/-- The errors that a list of byte strings is refused with. The number of strings counts before what
they hold, and then the first one that cannot be read. -/
inductive Refused (limbs : ℕ) (parts : List (List UInt8)) : DecodingError → Prop
  | count : parts.length ≠ 2 * iterations →
      Refused limbs parts (.countMismatch (2 * iterations) parts.length)
  | part {e : DecodingError} : parts.length = 2 * iterations →
      FirstPartError limbs (firstLength parts) 0 parts e → Refused limbs parts e

variable {parts : List (List UInt8)} {e : DecodingError}

theorem refused_iff (h : parts.length = 2 * iterations) :
    Refused limbs parts e ↔ FirstPartError limbs (firstLength parts) 0 parts e := by
  constructor
  · rintro (hcount | ⟨-, he⟩)
    · exact absurd h hcount
    · exact he
  · exact Refused.part h

theorem ofParts_eq_error_iff :
    (ofParts parts : Except DecodingError (Proof limbs)) = .error e ↔ Refused limbs parts e := by
  rw [ofParts, head?_length_getD]
  by_cases hcount : parts.length = 2 * iterations
  · rw [if_neg (not_not.mpr hcount), refused_iff hcount, ← valuesOfParts_eq_error_iff]
    cases hv : (valuesOfParts (firstLength parts) 0 parts :
        Except DecodingError (List (Uint limbs))) with
    | error found => simp
    | ok values =>
      have hlength : values.length = 2 * iterations := by
        have hl := congrArg List.length (valuesOfParts_eq_ok_iff.mp hv).2
        rwa [List.length_map, List.length_map, hcount] at hl
      obtain ⟨proof, rfl⟩ := exists_append_eq hlength
      simp [ofHalves_append]
  · rw [if_pos hcount, Except.error.injEq]
    constructor
    · rintro rfl
      exact .count hcount
    · rintro (_ | ⟨h, -⟩)
      · rfl
      · exact absurd h hcount

theorem exists_ofParts_eq_ok_iff :
    (∃ proof : Proof limbs, ofParts parts = .ok proof) ↔
      parts.length = 2 * iterations ∧
        ∀ part ∈ parts, ReadablePart limbs (firstLength parts) part := by
  rw [← ofWire, exists_ofWire_eq_ok_iff]
  constructor
  · rintro ⟨hcount, hwidth, hfits⟩
    have hlength := exists_length_iff.mp hwidth
    exact ⟨hcount, fun part hpart => ⟨hlength part hpart, hfits part hpart⟩⟩
  · rintro ⟨hcount, hread⟩
    exact ⟨hcount, ⟨_, fun part hpart => (hread part hpart).length⟩,
      fun part hpart => (hread part hpart).fits⟩

/-- The halves always have the right size by then. -/
theorem Refused.ne_groupSize (h : Refused limbs parts e) (expected actual : ℕ) :
    e ≠ .groupSize expected actual := by
  rintro rfl
  obtain _ | ⟨-, i, part, -, -, he⟩ := h
  cases he

/-- The first string has its own length. -/
theorem Refused.ne_lengthMismatch_zero (h : Refused limbs parts e) (expected actual : ℕ) :
    e ≠ .lengthMismatch 0 expected actual := by
  rintro rfl
  obtain _ | ⟨-, i, part, hi, -, he⟩ := h
  generalize hindex : 0 + i = index at he
  cases he with
  | length hne =>
    rw [Nat.zero_add] at hindex
    apply hne
    rw [firstLength, List.getD_eq_getElem?_getD, ← hindex, hi, Option.getD_some]

/-- What becomes of any list of byte strings. It is read exactly if there are as many strings as a
proof has, all as long as the first and all with values that fit. Otherwise the error is about their
number, or else about the first string that cannot be read, which is never one for its length if it
is the first of all. -/
theorem ofParts_outcome (limbs : ℕ) (parts : List (List UInt8)) :
    ((∃ proof : Proof limbs, ofParts parts = .ok proof) ↔
      parts.length = 2 * iterations ∧
        ∀ part ∈ parts, ReadablePart limbs (firstLength parts) part) ∧
    (∀ e, (ofParts parts : Except DecodingError (Proof limbs)) = .error e ↔
      Refused limbs parts e) ∧
    ∀ expected actual,
      (ofParts parts : Except DecodingError (Proof limbs)) ≠
          .error (.groupSize expected actual) ∧
        (ofParts parts : Except DecodingError (Proof limbs)) ≠
          .error (.lengthMismatch 0 expected actual) := by
  refine ⟨exists_ofParts_eq_ok_iff, fun e => ofParts_eq_error_iff, fun expected actual => ?_⟩
  constructor
  · intro h
    exact (ofParts_eq_error_iff.mp h).ne_groupSize expected actual rfl
  · intro h
    exact (ofParts_eq_error_iff.mp h).ne_lengthMismatch_zero expected actual rfl

end Proof

end DlogProof
