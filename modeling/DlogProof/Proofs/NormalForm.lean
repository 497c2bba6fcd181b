import DlogProof.Proofs.Padding

namespace DlogProof

theorem beValue_eq_zero_iff {bytes : List UInt8} :
    beValue bytes = 0 ↔ bytes = List.replicate bytes.length 0 := by
  have hzero := beValue_replicate_append bytes.length []
  rw [List.append_nil] at hzero
  constructor
  · intro h
    apply eq_of_beValue_eq List.length_replicate.symm
    rw [h, hzero]
    rfl
  · intro h
    rw [h, hzero]
    rfl

/-- A byte string starts with `n` zeros exactly if the bytes after them can hold its value. -/
theorem replicate_prefix_iff {n : ℕ} {bytes : List UInt8} :
    List.replicate n 0 <+: bytes ↔
      n ≤ bytes.length ∧ beValue bytes < 256 ^ (bytes.length - n) := by
  constructor
  · rintro ⟨rest, rfl⟩
    rw [beValue_replicate_append, List.length_append, List.length_replicate,
      Nat.add_sub_cancel_left]
    exact ⟨Nat.le_add_right _ _, beValue_lt rest⟩
  · rintro ⟨hn, hv⟩
    have htake : (bytes.take n).length = n := List.length_take_of_le hn
    rw [← List.take_append_drop n bytes, beValue_append, List.take_append_drop,
      List.length_drop] at hv
    have hhigh : beValue (bytes.take n) = 0 := by
      by_contra hne
      have := Nat.le_mul_of_pos_right (256 ^ (bytes.length - n)) (Nat.pos_of_ne_zero hne)
      omega
    rw [← htake, ← beValue_eq_zero_iff.mp hhigh]
    exact List.take_prefix n bytes

/-- The byte strings with `n` zero bytes put in front of each. -/
def withZeros (n : ℕ) (parts : List (List UInt8)) : List (List UInt8) :=
  parts.map (List.replicate n 0 ++ ·)

theorem withZeros_withZeros (n m : ℕ) (parts : List (List UInt8)) :
    withZeros n (withZeros m parts) = withZeros (n + m) parts := by
  simp only [withZeros, List.map_map, Function.comp_def, ← List.append_assoc,
    List.replicate_append_replicate]

/-- Taking away zeros that all strings start with loses nothing. -/
theorem withZeros_map_drop {n : ℕ} {parts : List (List UInt8)}
    (h : ∀ part ∈ parts, List.replicate n 0 <+: part) :
    withZeros n (parts.map (List.drop n)) = parts := by
  rw [withZeros, List.map_map]
  conv_rhs => rw [← List.map_id parts]
  apply List.map_congr_left
  intro part hpart
  obtain ⟨rest, rfl⟩ := h part hpart
  simp

variable {limbs : Nat}

/-- A byte string that starts with zeros is the encoding of its value and these zeros. -/
theorem drop_eq_beBytes {n : ℕ} {bytes : List UInt8} (h : List.replicate n 0 <+: bytes) :
    bytes.drop n = beBytes (bytes.length - n) (beValue bytes) := by
  obtain ⟨rest, rfl⟩ := h
  rw [List.drop_left' List.length_replicate, beValue_replicate_append, List.length_append,
    List.length_replicate, Nat.add_sub_cancel_left, beBytes_beValue]

theorem Uint.padBytes_toMinimalBytes {a : Uint limbs} {n : ℕ} (h : a.val < 256 ^ n) :
    padBytes n a.toMinimalBytes = beBytes n a.val := by
  apply eq_of_beValue_eq
  · rw [padBytes_length (toMinimalBytes_length_le_iff.mpr h), beBytes_length]
  · rw [beValue_padBytes, beValue_toMinimalBytes, beValue_beBytes, Nat.mod_eq_of_lt h]

namespace Proof

variable {parts parts' : List (List UInt8)} {proof : Proof limbs}

/-- Zeros in front of all byte strings change nothing, for lists that are refused as well. -/
theorem ofParts_withZeros_eq_ok_iff (n : ℕ) :
    ofParts (withZeros n parts) = .ok proof ↔ ofParts parts = .ok proof := by
  have hvalues : (withZeros n parts).map beValue = parts.map beValue := by
    rw [withZeros, List.map_map]
    exact List.map_congr_left fun part _ => beValue_replicate_append n part
  have hlength : ∀ part : List UInt8, (List.replicate n 0 ++ part).length = n + part.length :=
    fun part => by rw [List.length_append, List.length_replicate]
  rw [ofParts_eq_ok_iff, ofParts_eq_ok_iff, hvalues, withZeros, List.length_map]
  simp only [List.forall_mem_map, hlength]
  apply and_congr_right
  intro _
  apply and_congr_left
  intro _
  constructor
  · rintro ⟨width, h⟩
    exact ⟨width - n, fun part hpart => by have := h part hpart; omega⟩
  · rintro ⟨width, h⟩
    exact ⟨n + width, fun part hpart => congrArg (n + ·) (h part hpart)⟩

section OfParts

variable (h : ofParts parts = .ok proof)
include h

theorem length_of_ofParts {part : List UInt8} (hpart : part ∈ parts) :
    part.length = firstLength parts :=
  exists_length_iff.mp (ofParts_eq_ok_iff.mp h).2.1 part hpart

theorem width_le_iff_of_ofParts {n : ℕ} :
    proof.width ≤ n ↔ ∀ part ∈ parts, beValue part < 256 ^ n := by
  have hval : proof.values.map Uint.val = parts.map beValue := (ofParts_eq_ok_iff.mp h).2.2
  rw [width_le_iff, ← List.forall_mem_map (P := (· < 256 ^ n)), hval, List.forall_mem_map]

theorem width_le_firstLength : proof.width ≤ firstLength parts :=
  (width_le_iff_of_ofParts h).mpr fun part hpart => length_of_ofParts h hpart ▸ beValue_lt part

/-- All strings start with as many zeros as the longest minimal encoding leaves room for. -/
theorem forall_replicate_prefix_iff {n : ℕ} :
    (∀ part ∈ parts, List.replicate n 0 <+: part) ↔ n ≤ firstLength parts - proof.width := by
  have hwidth := width_le_firstLength h
  have hne : parts ≠ [] := by
    rw [← List.length_pos_iff, (ofParts_eq_ok_iff.mp h).1]
    decide
  obtain ⟨first, hfirst⟩ := List.exists_mem_of_ne_nil parts hne
  constructor
  · intro hall
    have hn : n ≤ firstLength parts :=
      length_of_ofParts h hfirst ▸ (replicate_prefix_iff.mp (hall first hfirst)).1
    have hfit : proof.width ≤ firstLength parts - n :=
      (width_le_iff_of_ofParts h).mpr fun part hpart =>
        length_of_ofParts h hpart ▸ (replicate_prefix_iff.mp (hall part hpart)).2
    omega
  · intro hn part hpart
    rw [replicate_prefix_iff, length_of_ofParts h hpart]
    exact ⟨by omega, (width_le_iff_of_ofParts h).mp (by omega) part hpart⟩

/-- What is written has lost the zeros that all strings start with, and no others. -/
theorem toParts_eq_map_drop :
    proof.toParts = parts.map (List.drop (firstLength parts - proof.width)) := by
  have hwidth := width_le_firstLength h
  have hval : proof.values.map Uint.val = parts.map beValue := (ofParts_eq_ok_iff.mp h).2.2
  have hwrite : ∀ a ∈ proof.values, padBytes proof.width a.toMinimalBytes =
      beBytes proof.width a.val := fun a ha =>
    Uint.padBytes_toMinimalBytes (width_le_iff.mp le_rfl a ha)
  have hread : ∀ part ∈ parts, beBytes proof.width (beValue part) =
      part.drop (firstLength parts - proof.width) := by
    intro part hpart
    rw [drop_eq_beBytes ((forall_replicate_prefix_iff h).mpr le_rfl part hpart),
      length_of_ofParts h hpart, Nat.sub_sub_self hwidth]
  calc proof.toParts
      = proof.values.map fun a => beBytes proof.width a.val := by
        rw [toParts_eq_map]
        exact List.map_congr_left hwrite
    _ = (proof.values.map Uint.val).map (beBytes proof.width) := by rw [List.map_map]; rfl
    _ = parts.map fun part => beBytes proof.width (beValue part) := by
        rw [hval, List.map_map]
        rfl
    _ = parts.map (List.drop (firstLength parts - proof.width)) := List.map_congr_left hread

theorem isGreatest_sharedZeros :
    IsGreatest {n | ∀ part ∈ parts, List.replicate n 0 <+: part}
      (firstLength parts - proof.width) :=
  ⟨(forall_replicate_prefix_iff h).mpr le_rfl, fun _ => (forall_replicate_prefix_iff h).mp⟩

theorem eq_withZeros_toParts :
    parts = withZeros (firstLength parts - proof.width) proof.toParts := by
  rw [toParts_eq_map_drop h, withZeros_map_drop (isGreatest_sharedZeros h).1]

theorem toParts_eq_iff :
    proof.toParts = parts ↔
      (∀ part ∈ parts, part = []) ∨ ∃ b rest, b ≠ 0 ∧ b :: rest ∈ parts := by
  obtain ⟨hshared, hgreatest⟩ := isGreatest_sharedZeros h
  rw [toParts_eq_map_drop h]
  generalize firstLength parts - proof.width = n at hshared hgreatest
  constructor
  · intro hsame
    by_contra hno
    push Not at hno
    obtain ⟨⟨part, hpart, hne⟩, hzero⟩ := hno
    -- All strings are as long as this one, and each starts with a zero.
    have hone : ∀ other ∈ parts, List.replicate 1 0 <+: other := by
      intro other hother
      have hlen : other.length = part.length :=
        (length_of_ofParts h hother).trans (length_of_ofParts h hpart).symm
      cases other with
      | nil => exact absurd (List.length_eq_zero_iff.mp hlen.symm) hne
      | cons b rest =>
        have hb : b = 0 := by
          by_contra hb
          exact hzero b rest hb hother
        exact hb ▸ ⟨rest, rfl⟩
    have hdrop : part.drop n = part :=
      List.map_inj_left.mp (hsame.trans (List.map_id parts).symm) part hpart
    have hlen := congrArg List.length hdrop
    have hpos := List.length_pos_iff.mpr hne
    have hn : 1 ≤ n := hgreatest hone
    rw [List.length_drop] at hlen
    omega
  · intro hor
    conv_rhs => rw [← List.map_id parts]
    apply List.map_congr_left
    intro part hpart
    rcases hor with hempty | ⟨b, rest, hb, hmem⟩
    · rw [hempty part hpart]
      exact List.drop_nil
    · have hn : n = 0 := by
        cases n with
        | zero => rfl
        | succ n =>
          have hprefix := hshared _ hmem
          rw [List.replicate_succ, List.cons_prefix_cons] at hprefix
          exact absurd hprefix.1.symm hb
      rw [hn]
      rfl

/-- Zeros in front of all byte strings are the only difference between lists that are read as the
same proof. -/
theorem ofParts_eq_ok_iff_withZeros :
    ofParts parts' = .ok proof ↔ ∃ n, parts' = withZeros n parts ∨ parts = withZeros n parts' := by
  constructor
  · intro h'
    have hparts := eq_withZeros_toParts h
    have hparts' := eq_withZeros_toParts h'
    generalize firstLength parts - proof.width = n at hparts
    generalize firstLength parts' - proof.width = n' at hparts'
    rcases Nat.le_total n n' with hle | hle
    · refine ⟨n' - n, Or.inl ?_⟩
      rw [hparts, withZeros_withZeros, Nat.sub_add_cancel hle, hparts']
    · refine ⟨n - n', Or.inr ?_⟩
      rw [hparts', withZeros_withZeros, Nat.sub_add_cancel hle, hparts]
  · rintro ⟨n, rfl | rfl⟩
    · exact (ofParts_withZeros_eq_ok_iff n).mpr h
    · exact (ofParts_withZeros_eq_ok_iff n).mp h

end OfParts

/-- What is written for a list that was read is the list without the zeros that all its strings
start with. So lists are read as the same proof, and get the same verdict, exactly if they differ in
such zeros. -/
theorem toParts_normalForm {P : Params} {parts : List (List UInt8)} {proof : Proof P.limbs}
    (h : ofParts parts = .ok proof) :
    (∃ n, IsGreatest {n | ∀ part ∈ parts, List.replicate n 0 <+: part} n ∧
      proof.toParts = parts.map (List.drop n)) ∧
    (proof.toParts = parts ↔
      (∀ part ∈ parts, part = []) ∨ ∃ b rest, b ≠ 0 ∧ b :: rest ∈ parts) ∧
    ∀ parts', (ofParts parts' = .ok proof ↔
        ∃ n, parts' = withZeros n parts ∨ parts = withZeros n parts') ∧
      (ofParts parts' = .ok proof → ∀ (a a' : Announcement P) (slot : Slot),
        a'.statement slot = a.statement slot → a.wire slot = ⟨parts⟩ → a'.wire slot = ⟨parts'⟩ →
          a'.verifySlot slot = a.verifySlot slot) := by
  refine ⟨⟨_, isGreatest_sharedZeros h, toParts_eq_map_drop h⟩, toParts_eq_iff h, fun parts' =>
    ⟨ofParts_eq_ok_iff_withZeros h, ?_⟩⟩
  intro h' a a' slot hstatement hwire hwire'
  have hread : ofWire (a.wire slot) = .ok proof := hwire ▸ h
  have hread' : ofWire (a'.wire slot) = .ok proof := hwire' ▸ h'
  rw [Announcement.verifySlot_eq_verify hread, Announcement.verifySlot_eq_verify hread', hstatement]

/-- Values that take two bytes at most are also read from strings of forty bytes, which are longer
than the integers. -/
theorem toParts_normalForm_long :
    let proof : Proof Params.test.limbs := .uniform ⟨3, by decide⟩ ⟨256, by decide⟩
    let parts := List.replicate 128 [0, 3] ++ List.replicate 128 [1, 0]
    ofParts parts = .ok proof ∧ proof.toParts = parts ∧
      ofParts (withZeros 38 parts) = .ok proof := by
  intro proof parts
  have h : ofParts parts = .ok proof := by decide +kernel
  obtain ⟨-, hsame, hread⟩ := toParts_normalForm h
  exact ⟨h, hsame.mpr (Or.inr ⟨1, [0], by decide, by decide +kernel⟩),
    (hread _).1.mpr ⟨38, Or.inl rfl⟩⟩

end Proof

end DlogProof
