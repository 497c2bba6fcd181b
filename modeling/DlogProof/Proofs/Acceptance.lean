import DlogProof.Keygen.Announcement
import DlogProof.Proofs.ByteParts

namespace DlogProof

variable {limbs : Nat} {P : Params}

namespace WireProof

/-- The number that the byte string at a position stands for, zero past the last one. -/
def value (wire : WireProof) (i : ℕ) : ℕ := beValue (wire.parts.getD i [])

/-- The commitment of repetition `i`, from the first half of the byte strings. -/
def commitmentValue (wire : WireProof) (i : Fin iterations) : ℕ := wire.value i

/-- The response of repetition `i`, from the second half of the byte strings. -/
def responseValue (wire : WireProof) (i : Fin iterations) : ℕ := wire.value (iterations + i)

/-- Whether byte strings have the form of a proof: twice as many as there are repetitions, of one
length, and of values that fit into the integer type. -/
structure Decodable (wire : WireProof) (limbs : ℕ) : Prop where
  count : wire.parts.length = 2 * iterations
  width : ∃ width, ∀ part ∈ wire.parts, part.length = width
  fits : ∀ part ∈ wire.parts, beValue part < 2 ^ (8 * Uint.byteWidth limbs)

/-- What the hash is fed for a statement and the commitments of a wire: the domain tag, and each
integer in the full width of the type, all with their lengths in front of them. -/
def transcript (wire : WireProof) (s : Statement limbs) : List UInt8 :=
  (domainTag :: (s.base.val :: s.power.val :: s.modulus.val ::
    List.ofFn wire.commitmentValue).map (beBytes (Uint.byteWidth limbs))).flatMap
      fun string => beBytes 8 string.length ++ string

/-- The challenge bit of repetition `i`, counted from the most significant one of each byte. -/
def challengeBit (wire : WireProof) (digest : Xof) (s : Statement limbs) (i : Fin iterations) :
    Bool :=
  ((digest.output (wire.transcript s) (iterations / 8)).getD (i / 8) 0).toNat.testBit (7 - i % 8)

/-- The conditions under which the byte strings of a proof convince the verifier of a statement. -/
structure Convincing (wire : WireProof) (digest : Xof) (s : Statement limbs) : Prop where
  decodable : wire.Decodable limbs
  odd : s.modulus.val % 2 = 1
  base_range : 0 < s.base.val ∧ s.base.val < s.modulus.val
  power_range : 0 < s.power.val ∧ s.power.val < s.modulus.val
  commitment_range : ∀ i, 0 < wire.commitmentValue i ∧ wire.commitmentValue i < s.modulus.val
  equation : ∀ i, s.base.val ^ wire.responseValue i ≡
    wire.commitmentValue i * s.power.val ^ (wire.challengeBit digest s i).toNat
      [MOD s.modulus.val]

end WireProof

theorem Uint.two_pow_byteWidth (limbs : ℕ) : 2 ^ (8 * byteWidth limbs) = 2 ^ (64 * limbs) := by
  rw [byteWidth, ← Nat.mul_assoc]

namespace Proof

/-- A wire decodes exactly if it has the form of a proof. -/
theorem exists_ofWire_eq_ok_iff {wire : WireProof} :
    (∃ proof : Proof limbs, ofWire wire = .ok proof) ↔ wire.Decodable limbs := by
  simp only [ofWire, ofParts_eq_ok_iff]
  constructor
  · rintro ⟨proof, hcount, hwidth, hval⟩
    refine ⟨hcount, hwidth, fun part hpart => ?_⟩
    have hmem : beValue part ∈ (proof.commitments ++ proof.responses).map Uint.val :=
      hval ▸ List.mem_map_of_mem hpart
    obtain ⟨v, -, hv⟩ := List.mem_map.mp hmem
    rw [← hv, Uint.two_pow_byteWidth]
    exact v.val_lt
  · rintro ⟨hcount, hwidth, hfits⟩
    let values : List (Uint limbs) := wire.parts.map fun part =>
      ⟨beValue part % 2 ^ (64 * limbs), Nat.mod_lt _ (Nat.two_pow_pos _)⟩
    have hlen : values.length = 2 * iterations := (List.length_map _).trans hcount
    obtain ⟨proof, hproof⟩ := exists_append_eq hlen
    refine ⟨proof, hcount, hwidth, ?_⟩
    rw [hproof, List.map_map]
    apply List.map_congr_left
    intro part hpart
    exact Nat.mod_eq_of_lt (Uint.two_pow_byteWidth limbs ▸ hfits part hpart)

section OfWire

variable {wire : WireProof} {proof : Proof limbs}

theorem value_of_ofWire (h : ofWire wire = .ok proof) (j : ℕ) :
    (((proof.commitments ++ proof.responses)[j]?).map Uint.val).getD 0 = wire.value j := by
  obtain ⟨-, -, hval⟩ := ofParts_eq_ok_iff.mp h
  rw [← List.getElem?_map, hval, List.getElem?_map, WireProof.value, List.getD_eq_getElem?_getD]
  cases wire.parts[j]? <;> rfl

theorem commitment_val_of_ofWire (h : ofWire wire = .ok proof) (i : Fin iterations) :
    (proof.commitment i).val = wire.commitmentValue i := by
  have hl := proof.commitments_length
  have hv := value_of_ofWire h i.val
  rwa [List.getElem?_append_left (by omega), proof.commitments_getElem?] at hv

theorem response_val_of_ofWire (h : ofWire wire = .ok proof) (i : Fin iterations) :
    (proof.response i).val = wire.responseValue i := by
  have hl := proof.commitments_length
  have hv := value_of_ofWire h (iterations + i.val)
  rwa [List.getElem?_append_right (by omega), hl, Nat.add_sub_cancel_left,
    proof.responses_getElem?] at hv

theorem commitments_map_val (proof : Proof limbs) :
    proof.commitments.map Uint.val = List.ofFn fun i => (proof.commitment i).val := by
  apply List.ext_getElem?
  intro j
  by_cases hj : j < iterations
  · rw [List.getElem?_map, proof.commitments_getElem? ⟨j, hj⟩, List.getElem?_ofFn, dif_pos hj]
    rfl
  · have hl := proof.commitments_length
    rw [List.getElem?_eq_none (by simp; omega), List.getElem?_eq_none (by simp; omega)]

end OfWire

end Proof

/-- A challenge bit, counted from the most significant one of each byte that the hash gives. -/
theorem Statement.challengeBit_eq_testBit (digest : Xof) (s : Statement limbs)
    (commitments : List (Uint limbs)) (i : Fin iterations) :
    s.challengeBit digest commitments i =
      ((digest.output (s.transcript commitments) (iterations / 8)).getD (i / 8) 0).toNat.testBit
        (7 - i % 8) := by
  have hi : i.val / 8 < (digest.output (s.transcript commitments) (iterations / 8)).length := by
    have hk : 8 * (iterations / 8) = iterations := by decide
    rw [digest.output_length]
    omega
  have hbit := s.challenge_getElem? digest commitments i
  rw [challenge, unpackBits_getElem? _ i.isLt, challengeBytes,
    show (iterations + 7) / 8 = iterations / 8 by decide, List.getElem?_eq_getElem hi,
    Option.map_some, Option.some.injEq] at hbit
  rw [← hbit, List.getD_eq_getElem _ _ hi]

theorem Statement.transcript_eq (s : Statement limbs) (commitments : List (Uint limbs)) :
    s.transcript commitments = transcriptOf (domainTag ::
      (s.base.val :: s.power.val :: s.modulus.val :: commitments.map Uint.val).map
        (beBytes (Uint.byteWidth limbs))) := by
  have hbytes : (Uint.toBytes : Uint limbs → List UInt8) =
      beBytes (Uint.byteWidth limbs) ∘ Uint.val := funext Uint.toBytes_eq
  simp only [transcript, hbytes, List.map_cons, List.map_map, Function.comp_apply]

namespace WireProof

variable {wire : WireProof} {proof : Proof limbs} {digest : Xof} {s : Statement limbs}

theorem transcript_of_ofWire (h : Proof.ofWire wire = .ok proof) :
    s.transcript proof.commitments = wire.transcript s := by
  have hc : (fun i => (proof.commitment i).val) = wire.commitmentValue :=
    funext (Proof.commitment_val_of_ofWire h)
  rw [Statement.transcript_eq, proof.commitments_map_val, hc]
  rfl

/-- A proof that decodes is convincing exactly if it meets the protocol's conditions. -/
theorem convincing_iff_accepted (h : Proof.ofWire wire = .ok proof) :
    wire.Convincing digest s ↔ proof.Accepted s (s.challengeBit digest proof.commitments) := by
  have hbit : s.challengeBit digest proof.commitments = wire.challengeBit digest s :=
    funext fun i => by
      rw [Statement.challengeBit_eq_testBit, transcript_of_ofWire h, challengeBit]
  constructor
  · rintro ⟨-, hodd, hbase, hpower, hcommit, hequation⟩
    refine ⟨hodd, hbase, hpower, ?_, ?_⟩
    · simpa only [Proof.commitment_val_of_ofWire h] using hcommit
    · simpa only [Proof.commitment_val_of_ofWire h, Proof.response_val_of_ofWire h, hbit]
        using hequation
  · rintro ⟨hodd, hbase, hpower, hcommit, hequation⟩
    simp only [Proof.commitment_val_of_ofWire h, Proof.response_val_of_ofWire h, hbit]
      at hcommit hequation
    exact ⟨Proof.exists_ofWire_eq_ok_iff.mp ⟨proof, h⟩, hodd, hbase, hpower, hcommit, hequation⟩

end WireProof

namespace Announcement

theorem verifySlot_eq_verify {a : Announcement P} {slot : Slot} {proof : Proof P.limbs}
    (h : Proof.ofWire (a.wire slot) = .ok proof) :
    a.verifySlot slot = proof.verify P.digest (a.statement slot) := by
  simp only [verifySlot, h]

theorem verifySlot_iff_convincing (a : Announcement P) (slot : Slot) :
    a.verifySlot slot = true ↔ (a.wire slot).Convincing P.digest (a.statement slot) := by
  cases h : (Proof.ofWire (a.wire slot) : Except DecodingError (Proof P.limbs)) with
  | ok proof =>
    rw [verifySlot_eq_verify h, Proof.verify_eq_true_iff, WireProof.convincing_iff_accepted h]
  | error e =>
    have hno : ¬ (a.wire slot).Convincing P.digest (a.statement slot) := fun hc => by
      obtain ⟨proof, hp⟩ := Proof.exists_ofWire_eq_ok_iff.mpr hc.decodable
      rw [h] at hp
      cases hp
    simp only [verifySlot, h, hno, Bool.false_eq_true]

/-- The announcements that the verifier accepts, whatever bytes they hold. In the second proof, the
generators have changed places. -/
theorem verifySlot_eq_true_iff (a : Announcement P) :
    (a.verifySlot .first = true ↔ a.firstProof.Convincing P.digest
      { base := a.h1, power := a.h2, modulus := a.modulus }) ∧
    (a.verifySlot .second = true ↔ a.secondProof.Convincing P.digest
      { base := a.h2, power := a.h1, modulus := a.modulus }) :=
  ⟨a.verifySlot_iff_convincing .first, a.verifySlot_iff_convincing .second⟩

end Announcement

/-- The byte at one position of what is hashed, over and over. -/
def Xof.echo (position : ℕ) : Xof where
  output message n := List.replicate n (message.getD position 0)
  output_length _ _ := List.length_replicate

/-- Four-bit moduli, and challenges that repeat the last byte of the base of the statement. -/
def Params.echoed : Params := { primeBits := 2, limbs := 1, digest := Xof.echo 28 }

/-- An announcement of the generators two and three modulo 13. The first proof shows three as
`2 ^ 4` where the bits of two are set. The second commits to seven, the inverse of two, where those
of three are. -/
def Announcement.echoed : Announcement .echoed where
  paillierModulus := ⟨15, by decide⟩
  modulus := ⟨13, by decide⟩
  h1 := ⟨2, by decide⟩
  h2 := ⟨3, by decide⟩
  firstProof := ⟨List.replicate 128 [1] ++ (List.range 128).map fun i =>
    [if i % 8 = 6 then 4 else 0]⟩
  secondProof := ⟨((List.range 128).map fun i => [if i % 8 ∈ [6, 7] then 7 else 1]) ++
    List.replicate 128 [0]⟩

/-- Both proofs convince the verifier in their own slots, and neither in the other one. -/
theorem Announcement.verifySlot_eq_true_iff_echoed :
    echoed.firstProof.Convincing (Xof.echo 28)
        { base := echoed.h1, power := echoed.h2, modulus := echoed.modulus } ∧
      echoed.secondProof.Convincing (Xof.echo 28)
        { base := echoed.h2, power := echoed.h1, modulus := echoed.modulus } ∧
      ¬ echoed.secondProof.Convincing (Xof.echo 28)
        { base := echoed.h1, power := echoed.h2, modulus := echoed.modulus } ∧
      ¬ echoed.firstProof.Convincing (Xof.echo 28)
        { base := echoed.h2, power := echoed.h1, modulus := echoed.modulus } := by
  let swapped : Announcement .echoed :=
    { echoed with firstProof := echoed.secondProof, secondProof := echoed.firstProof }
  have hfirst : swapped.verifySlot .first ≠ true := by decide +kernel
  have hsecond : swapped.verifySlot .second ≠ true := by decide +kernel
  exact ⟨echoed.verifySlot_eq_true_iff.1.mp (by decide +kernel),
    echoed.verifySlot_eq_true_iff.2.mp (by decide +kernel),
    fun h => hfirst (swapped.verifySlot_eq_true_iff.1.mpr h),
    fun h => hsecond (swapped.verifySlot_eq_true_iff.2.mpr h)⟩

end DlogProof
