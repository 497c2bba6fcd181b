import DlogProof.Proofs.Challenge
import DlogProof.Proofs.Sampling
import DlogProof.Proofs.Verification
import Mathlib.Data.List.OfFn

namespace DlogProof

variable {limbs : Nat}

/-- A list of steps gives values exactly if every step gives its own. -/
theorem mapM_eq_some_iff {α β : Type} {f : α → Option β} {l : List α} {values : List β} :
    l.mapM f = some values ↔ l.map f = values.map some := by
  induction l generalizing values with
  | nil => cases values <;> simp
  | cons x l ih =>
    rw [List.mapM_cons]
    cases hx : f x with
    | none => cases values <;> simp [hx]
    | some y =>
      cases values with
      | nil => cases hl : l.mapM f <;> simp
      | cons z values =>
        simp only [List.map_cons, hx, List.cons.injEq, Option.some.injEq, ← ih]
        cases hl : l.mapM f <;> simp

theorem Witness.groupOrder_eq_ok_iff {w : Witness limbs} {m : Uint limbs} :
    w.groupOrder = .ok m ↔
      m.val = w.p.val * w.q.val ∧ 0 < m.val ∧ m.bits < Uint.bitWidth limbs := by
  unfold groupOrder Uint.checkedMul
  constructor
  · intro h
    split at h
    · cases h
    · rename_i m' hm
      split at h
      · cases h
      · split at h
        · cases h
        · cases h
          exact ⟨Uint.ofNat?_eq_some_iff.mp hm, by omega, by omega⟩
  · rintro ⟨hm, hpos, hbits⟩
    have hs : (Uint.ofNat? (w.p.val * w.q.val) : Option (Uint limbs)) = some m :=
      Uint.ofNat?_eq_some_iff.mpr hm
    simp only [hs, if_neg (Nat.not_le.mpr hbits), if_neg hpos.ne']

theorem Proof.ofHalves_toOption_eq_some_iff {commitments responses : List (Uint limbs)}
    {proof : Proof limbs} :
    (Proof.ofHalves commitments responses).toOption = some proof ↔
      proof.commitments = commitments ∧ proof.responses = responses := by
  unfold ofHalves
  constructor
  · intro h
    split at h
    · split at h
      · cases h
        exact ⟨rfl, rfl⟩
      · cases h
    · cases h
  · rintro ⟨rfl, rfl⟩
    simp only [dif_pos proof.commitments_length, dif_pos proof.responses_length]
    rfl

namespace Prover

variable {prover : Prover limbs} {digest : Xof} {s : Statement limbs} {w : Witness limbs}

/-- What the checks of the inputs establish. -/
structure Checked (prover : Prover limbs) (s : Statement limbs) (w : Witness limbs) : Prop where
  modulus_eq : s.modulus = prover.modulus.modulus
  order_eq : prover.order.val = w.p.val * w.q.val
  order_pos : 0 < prover.order.val
  order_bits : prover.order.bits < Uint.bitWidth limbs
  exponent_eq : prover.exponent = w.exponent.rem prover.order

theorem ofInputs_eq_ok_iff : ofInputs s w = .ok prover ↔ prover.Checked s w := by
  unfold ofInputs
  constructor
  · intro h
    split at h
    · cases h
    · rename_i n hn
      cases hg : w.groupOrder with
      | error e =>
        rw [hg] at h
        cases h
      | ok m =>
        rw [hg] at h
        cases h
        obtain ⟨hm, hpos, hbits⟩ := Witness.groupOrder_eq_ok_iff.mp hg
        exact ⟨OddModulus.ofUint?_eq_some_iff.mp hn, hm, hpos, hbits, rfl⟩
  · intro h
    have hn := OddModulus.ofUint?_eq_some_iff.mpr h.modulus_eq
    have hg := Witness.groupOrder_eq_ok_iff.mpr ⟨h.order_eq, h.order_pos, h.order_bits⟩
    simp only [hn, hg, Except.map, ← h.exponent_eq]

theorem Checked.exponent_lt (h : prover.Checked s w) : prover.exponent.val < prover.order.val := by
  rw [h.exponent_eq]
  exact Nat.mod_lt _ h.order_pos

/-- A sum that is reduced is the same with the exponent not reduced first. -/
theorem Checked.add_mul_exponent_mod (h : prover.Checked s w) (a k : ℕ) :
    (a + k * prover.exponent.val) % prover.order.val =
      (a + k * w.exponent.val) % prover.order.val := by
  rw [h.exponent_eq, Uint.rem, ← Nat.add_mod_mod, Nat.mul_mod_mod, Nat.add_mod_mod]

/-- The sum of a nonce and the exponent never overflows, because the order leaves a bit to spare. -/
theorem Checked.add_exponent_lt (h : prover.Checked s w) {a : Uint limbs}
    (ha : a.val < prover.order.val) : a.val + prover.exponent.val < 2 ^ (64 * limbs) := by
  have hx := h.exponent_lt
  have hbits := h.order_bits
  rw [Uint.bitWidth] at hbits
  have hb : prover.order.val < 2 ^ (64 * limbs - 1) := Uint.bits_le_iff.mp (by omega)
  have hw : 2 ^ (64 * limbs) = 2 * 2 ^ (64 * limbs - 1) := by
    rw [← pow_succ', Nat.sub_add_cancel (by omega)]
  omega

theorem Checked.respond?_eq_some_iff (h : prover.Checked s w) {a t : Uint limbs} {c : Bool}
    (ha : a.val < prover.order.val) :
    prover.respond? a c = some t ↔
      t.val = (a.val + c.toNat * prover.exponent.val) % prover.order.val := by
  cases c with
  | false =>
    simp only [respond?, Bool.false_eq_true, if_false, Option.some.injEq, Bool.toNat_false,
      Nat.zero_mul, Nat.add_zero, Nat.mod_eq_of_lt ha]
    rw [← Uint.val_inj, eq_comm]
  | true =>
    have hs : a.checkedAdd prover.exponent = some ⟨_, h.add_exponent_lt ha⟩ :=
      Uint.ofNat?_eq_some_iff.mpr rfl
    simp only [respond?, if_true, hs, Option.map_some, Option.some.injEq, Bool.toNat_true,
      Nat.one_mul]
    rw [← Uint.val_inj, eq_comm]
    rfl

theorem commitments_eq (prover : Prover limbs) (s : Statement limbs)
    (nonces : List (Uint limbs)) :
    prover.commitments s nonces =
      nonces.map fun a => prover.modulus.powBounded s.base a prover.order.bits := by
  rw [commitments]
  apply List.map_congr_left
  intro a _
  exact prover.modulus.raise_powerTable s.base a prover.order.bits

/-- The commitment to a nonce below the order is the base raised to all of it. -/
theorem Checked.commitments_val (h : prover.Checked s w) {nonces : List (Uint limbs)}
    (hn : ∀ a ∈ nonces, a.val < prover.order.val) :
    (prover.commitments s nonces).map Uint.val =
      nonces.map fun a => s.base.val ^ a.val % s.modulus.val := by
  rw [commitments_eq, List.map_map, h.modulus_eq]
  apply List.map_congr_left
  intro a ha
  have hfit : a.val < 2 ^ prover.order.bits := (hn a ha).trans (lt_two_pow_bitLength _)
  exact prover.modulus.powBounded_val_of_lt s.base hfit

/-- Whether a proof is the one that the protocol prescribes for the given nonces. -/
structure Made (prover : Prover limbs) (digest : Xof) (s : Statement limbs)
    (nonce : Fin iterations → Uint limbs) (proof : Proof limbs) : Prop where
  commitment : ∀ i, (proof.commitment i).val = s.base.val ^ (nonce i).val % s.modulus.val
  response : ∀ i, (proof.response i).val = ((nonce i).val +
    (s.challengeBit digest proof.commitments i).toNat * prover.exponent.val) % prover.order.val

/-- A response is the sum of the nonce and the challenged exponent, reduced once. -/
theorem Made.response_val {proof : Proof limbs} {nonce : Fin iterations → Uint limbs}
    (hm : prover.Made digest s nonce proof) (hk : prover.Checked s w) (i : Fin iterations) :
    (proof.response i).val = ((nonce i).val +
      (s.challengeBit digest proof.commitments i).toNat * w.exponent.val) % prover.order.val := by
  rw [hm.response i, hk.add_mul_exponent_mod]

/-- The proof that follows from the nonces has its commitments from them, and one response for each
pair of a nonce and a challenge bit. -/
theorem complete?_eq_some_iff {nonces : List (Uint limbs)} {proof : Proof limbs} :
    prover.complete? digest s nonces = some proof ↔
      proof.commitments = prover.commitments s nonces ∧
        (nonces.zip (s.challenge digest proof.commitments)).map
          (fun (a, c) => prover.respond? a c) = proof.responses.map some := by
  unfold complete?
  dsimp only
  constructor
  · intro h
    split at h
    · cases h
    · rename_i responses hm
      obtain ⟨hc, rfl⟩ := Proof.ofHalves_toOption_eq_some_iff.mp h
      rw [hc]
      exact ⟨rfl, mapM_eq_some_iff.mp hm⟩
  · rintro ⟨hc, hr⟩
    rw [hc, ← mapM_eq_some_iff] at hr
    rw [hr]
    exact Proof.ofHalves_toOption_eq_some_iff.mpr ⟨hc, rfl⟩

theorem Checked.made_of_complete? {proof : Proof limbs} (h : prover.Checked s w)
    {nonce : Fin iterations → Uint limbs} (hn : ∀ i, (nonce i).val < prover.order.val)
    (hc : prover.complete? digest s (List.ofFn nonce) = some proof) :
    prover.Made digest s nonce proof := by
  obtain ⟨hcs, hrs⟩ := complete?_eq_some_iff.mp hc
  have hmem : ∀ a ∈ List.ofFn nonce, a.val < prover.order.val := List.forall_mem_ofFn_iff.mpr hn
  constructor
  · intro i
    have hv := congrArg (fun l => l[i.val]?) (h.commitments_val hmem)
    simpa [← hcs, Proof.commitments_getElem?] using hv
  · intro i
    have hz : ((List.ofFn nonce).zip (s.challenge digest proof.commitments))[i.val]? =
        some (nonce i, s.challengeBit digest proof.commitments i) :=
      List.getElem?_zip_eq_some.mpr
        ⟨by simp, s.challenge_getElem? digest proof.commitments i⟩
    have hr := congrArg (fun l => l[i.val]?) hrs
    simp only [List.getElem?_map, hz, Proof.responses_getElem?, Option.map_some,
      Option.some.injEq] at hr
    exact (h.respond?_eq_some_iff (hn i)).mp hr

end Prover

theorem drawNonces_eq_ok {σ : Type} [EntropySource σ] {fuel count : ℕ} {bound : Uint limbs}
    {nonces : List (Uint limbs)} {t t' : σ}
    (h : drawNonces fuel bound count t = (.ok nonces, t')) :
    ∃ nonce : Fin count → Uint limbs, nonces = List.ofFn nonce ∧
      ∀ i, 0 < (nonce i).val ∧ (nonce i).val < bound.val := by
  obtain ⟨hlength, hrange⟩ := drawNonces_range h
  obtain ⟨nonce, rfl⟩ : ∃ nonce : Fin count → Uint limbs, nonces = List.ofFn nonce :=
    ⟨_, (List.ofFn_get nonces).symm.trans (List.ofFn_congr hlength _)⟩
  exact ⟨nonce, rfl, List.forall_mem_ofFn_iff.mp hrange⟩

/-- A run that gives a proof passed the checks, drew a nonce in `[1, p * q)` for each repetition,
and followed the protocol. -/
theorem prove_eq_ok {σ : Type} [EntropySource σ] {digest : Xof} {fuel : Nat} {s : Statement limbs}
    {w : Witness limbs} {proof : Proof limbs} {t t' : σ}
    (h : prove digest fuel s w t = (.ok proof, t')) :
    ∃ (prover : Prover limbs) (nonce : Fin iterations → Uint limbs),
      prover.Checked s w ∧
      drawNonces fuel prover.order iterations t = (.ok (List.ofFn nonce), t') ∧
      (∀ i, 0 < (nonce i).val ∧ (nonce i).val < prover.order.val) ∧
      prover.Made digest s nonce proof := by
  unfold prove at h
  cases hp : Prover.ofInputs s w with
  | error e =>
    simp only [hp] at h
    cases h
  | ok prover =>
    simp only [hp] at h
    have hcheck := Prover.ofInputs_eq_ok_iff.mp hp
    obtain ⟨nonces, u, hd, hk⟩ := Draw.bind_eq_ok.mp h
    have hdraw := Draw.mapError_eq_ok.mp hd
    obtain ⟨nonce, rfl, hr⟩ := drawNonces_eq_ok hdraw
    cases hc : prover.complete? digest s (List.ofFn nonce) with
    | none =>
      rw [hc] at hk
      cases hk
    | some made =>
      rw [hc] at hk
      cases hk
      exact ⟨prover, nonce, hcheck, hdraw, hr, hcheck.made_of_complete? (fun i => (hr i).2) hc⟩

end DlogProof
