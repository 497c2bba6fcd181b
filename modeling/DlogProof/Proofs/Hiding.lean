import DlogProof.Proofs.ProverResult
import Mathlib.Data.Set.Card

namespace DlogProof

theorem eq_of_add_mod_eq {m y a b : ℕ} (ha : a < m) (hb : b < m)
    (h : (a + y) % m = (b + y) % m) : a = b :=
  (Nat.ModEq.add_right_cancel' y h).eq_of_lt_of_lt ha hb

/-- Adding `y` modulo `m` to the numbers from one on reaches all remainders but that of `y`, which
is what zero would reach. -/
theorem exists_add_mod_eq_iff {m : ℕ} (hm : 0 < m) (y t : ℕ) :
    (∃ a, (0 < a ∧ a < m) ∧ t = (a + y) % m) ↔ t < m ∧ t ≠ y % m := by
  constructor
  · rintro ⟨a, ⟨hpos, hlt⟩, rfl⟩
    refine ⟨Nat.mod_lt _ hm, fun h => hpos.ne' (eq_of_add_mod_eq (y := y) hlt hm ?_)⟩
    rw [h, Nat.zero_add]
  · rintro ⟨hlt, hne⟩
    have hy : y % m < m := Nat.mod_lt y hm
    have ht : t ≡ t + (m - y % m) + y [MOD m] :=
      calc t ≡ t + m [MOD m] := (Nat.add_mod_right t m).symm
        _ = t + (m - y % m) + y % m := by omega
        _ ≡ t + (m - y % m) + y [MOD m] := (Nat.mod_modEq y m).add_left _
    have hvalue : t = ((t + (m - y % m)) % m + y) % m := by
      rw [Nat.mod_add_mod, ← ht, Nat.mod_eq_of_lt hlt]
    refine ⟨_, ⟨Nat.pos_of_ne_zero fun hzero => hne ?_, Nat.mod_lt _ hm⟩, hvalue⟩
    rwa [hzero, Nat.zero_add] at hvalue

namespace Prover

variable {limbs : ℕ} {prover prover' : Prover limbs} {s s' : Statement limbs}
  {w w' : Witness limbs} {c : Bool} {t : Uint limbs}

/-- The nonces that can be drawn. -/
def nonceRange (prover : Prover limbs) : Set (Uint limbs) :=
  {a | 0 < a.val ∧ a.val < prover.order.val}

/-- The nonces that are answered with `t` if the challenge bit is `c`. -/
def noncesFor (prover : Prover limbs) (c : Bool) (t : Uint limbs) : Set (Uint limbs) :=
  {a ∈ prover.nonceRange | prover.respond? a c = some t}

/-- The response to a nonce that can be drawn is the sum of the nonce and the challenged exponent,
reduced by the order. -/
theorem Checked.respond?_eq_some_iff_sum (h : prover.Checked s w) {a : Uint limbs}
    (ha : a ∈ prover.nonceRange) :
    prover.respond? a c = some t ↔ t.val = (a.val + c.toNat * w.exponent.val) % w.order := by
  rw [h.respond?_eq_some_iff ha.2, h.add_mul_exponent_mod, Witness.order, ← h.order_eq]

theorem Checked.exists_respond?_eq_some (h : prover.Checked s w) (c : Bool) {a : Uint limbs}
    (ha : a ∈ prover.nonceRange) : ∃ t, prover.respond? a c = some t :=
  ⟨prover.order.residue (a.val + c.toNat * prover.exponent.val) h.order_pos,
    (h.respond?_eq_some_iff ha.2).mpr rfl⟩

theorem Checked.respond?_injOn (h : prover.Checked s w) (c : Bool) :
    Set.InjOn (prover.respond? · c) prover.nonceRange := by
  intro a ha b hb hab
  obtain ⟨t, ht⟩ := h.exists_respond?_eq_some c ha
  have hsum := (h.respond?_eq_some_iff_sum ha).mp ht
  have hsum' := (h.respond?_eq_some_iff_sum hb).mp (hab.symm.trans ht)
  have horder : prover.order.val = w.order := h.order_eq
  exact Uint.ext_val (eq_of_add_mod_eq (horder ▸ ha.2) (horder ▸ hb.2) (hsum.symm.trans hsum'))

/-- Every remainder is the response to some nonce, but for the one that the nonce zero would be
answered with. -/
theorem Checked.noncesFor_nonempty_iff (h : prover.Checked s w) :
    (prover.noncesFor c t).Nonempty ↔
      t.val < w.order ∧ t.val ≠ c.toNat * w.exponent.val % w.order := by
  have horder : prover.order.val = w.order := h.order_eq
  rw [← exists_add_mod_eq_iff (horder ▸ h.order_pos)]
  constructor
  · rintro ⟨a, ha, ht⟩
    exact ⟨a.val, horder ▸ ha, (h.respond?_eq_some_iff_sum ha).mp ht⟩
  · rintro ⟨v, hv, ht⟩
    rw [← horder] at hv
    let a : Uint limbs := ⟨v, hv.2.trans prover.order.val_lt⟩
    exact ⟨a, hv, (h.respond?_eq_some_iff_sum (a := a) hv).mpr ht⟩

theorem Checked.image_respond? (h : prover.Checked s w) (c : Bool) :
    (prover.respond? · c) '' prover.nonceRange =
      some '' {t | t.val < w.order ∧ t.val ≠ c.toNat * w.exponent.val % w.order} := by
  ext response
  constructor
  · rintro ⟨a, ha, rfl⟩
    obtain ⟨t, ht⟩ := h.exists_respond?_eq_some c ha
    exact ⟨t, h.noncesFor_nonempty_iff.mp ⟨a, ha, ht⟩, ht.symm⟩
  · rintro ⟨t, ht, rfl⟩
    obtain ⟨a, ha, hresponse⟩ := h.noncesFor_nonempty_iff.mpr ht
    exact ⟨a, ha, hresponse⟩

theorem Checked.ncard_noncesFor (h : prover.Checked s w) (c : Bool) (t : Uint limbs) :
    (prover.noncesFor c t).ncard =
      if t.val < w.order ∧ t.val ≠ c.toNat * w.exponent.val % w.order then 1 else 0 := by
  split_ifs with hreached
  · obtain ⟨a, ha⟩ := h.noncesFor_nonempty_iff.mpr hreached
    have honly : prover.noncesFor c t = {a} := by
      refine Set.eq_singleton_iff_unique_mem.mpr ⟨ha, fun b hb => ?_⟩
      exact h.respond?_injOn c hb.1 ha.1 (hb.2.trans ha.2.symm)
    rw [honly, Set.ncard_singleton]
  · rw [← h.noncesFor_nonempty_iff, Set.not_nonempty_iff_eq_empty] at hreached
    rw [hreached, Set.ncard_empty]

section TwoRuns

variable (h : prover.Checked s w) (h' : prover'.Checked s' w') (horder : w'.order = w.order)
include h h' horder

/-- Where the counts for two exponents differ, the response is the one that is missed with one of
them. -/
theorem Checked.ncard_noncesFor_eq
    (hne : t.val ≠ c.toNat * w.exponent.val % w.order)
    (hne' : t.val ≠ c.toNat * w'.exponent.val % w.order) :
    (prover.noncesFor c t).ncard = (prover'.noncesFor c t).ncard := by
  rw [h.ncard_noncesFor, h'.ncard_noncesFor, horder]
  simp only [hne, hne', ne_eq, not_false_eq_true]

theorem Checked.encard_noncesFor_ne_le (c : Bool) :
    {t | (prover.noncesFor c t).ncard ≠ (prover'.noncesFor c t).ncard}.encard ≤ 2 := by
  let missed (x : Uint limbs) : Uint limbs :=
    prover.order.residue (c.toNat * x.val) h.order_pos
  have hmissed : ∀ x, (missed x).val = c.toNat * x.val % w.order := fun x => by
    rw [Witness.order, ← h.order_eq]
    rfl
  have hsubset : {t | (prover.noncesFor c t).ncard ≠ (prover'.noncesFor c t).ncard} ⊆
      {missed w.exponent, missed w'.exponent} := by
    intro t ht
    by_contra hno
    rw [Set.mem_insert_iff, Set.mem_singleton_iff, not_or, ← Uint.val_inj, ← Uint.val_inj,
      hmissed, hmissed] at hno
    exact ht (h.ncard_noncesFor_eq h' horder hno.1 hno.2)
  calc {t | (prover.noncesFor c t).ncard ≠ (prover'.noncesFor c t).ncard}.encard
      ≤ ({missed w.exponent, missed w'.exponent} : Set (Uint limbs)).encard :=
        Set.encard_le_encard hsubset
    _ ≤ ({missed w'.exponent} : Set (Uint limbs)).encard + 1 := Set.encard_insert_le _ _
    _ = 2 := by rw [Set.encard_singleton, one_add_one_eq_two]

end TwoRuns

/-- The responses hide the exponent. For each challenge bit, the nonces that can be drawn give
different responses, and together all remainders modulo the order but one. So the nonces for each
response are as many with one exponent as with any other, up to one nonce for two responses. -/
theorem responses_hide_exponent (h : ofInputs s w = .ok prover) (c : Bool) :
    Set.InjOn (prover.respond? · c) prover.nonceRange ∧
    (prover.respond? · c) '' prover.nonceRange =
      some '' {t | t.val < w.order ∧ t.val ≠ c.toNat * w.exponent.val % w.order} ∧
    ∀ (s' : Statement limbs) (w' : Witness limbs) (prover' : Prover limbs),
      ofInputs s' w' = .ok prover' → w'.order = w.order →
        {t | (prover.noncesFor c t).ncard ≠ (prover'.noncesFor c t).ncard}.encard ≤ 2 ∧
        ∀ t, (prover.noncesFor c t).ncard ≤ (prover'.noncesFor c t).ncard + 1 ∧
          (prover'.noncesFor c t).ncard ≤ (prover.noncesFor c t).ncard + 1 := by
  have hcheck := ofInputs_eq_ok_iff.mp h
  refine ⟨hcheck.respond?_injOn c, hcheck.image_respond? c, fun s' w' prover' h' horder => ?_⟩
  have hcheck' := ofInputs_eq_ok_iff.mp h'
  refine ⟨hcheck.encard_noncesFor_ne_le hcheck' horder c, fun t => ?_⟩
  rw [hcheck.ncard_noncesFor, hcheck'.ncard_noncesFor]
  constructor <;> split_ifs <;> omega

/-- With the order three, the exponents four and two are each missed by the responses to a set
bit. -/
theorem responses_hide_exponent_three :
    let s := Statement.modSeven ⟨4, by decide⟩
    let prover (x : Uint 1) : Prover 1 := ⟨⟨s.modulus, by decide⟩, ⟨3, by decide⟩, x⟩
    ofInputs s ⟨⟨4, by decide⟩, ⟨3, by decide⟩, ⟨1, by decide⟩⟩ =
        .ok (prover ⟨1, by decide⟩) ∧
      some ⟨1, by decide⟩ ∉ ((prover ⟨1, by decide⟩).respond? · true) ''
        (prover ⟨1, by decide⟩).nonceRange ∧
      {t | ((prover ⟨1, by decide⟩).noncesFor true t).ncard ≠
        ((prover ⟨2, by decide⟩).noncesFor true t).ncard}.encard ≤ 2 := by
  intro s prover
  have h : ofInputs s ⟨⟨4, by decide⟩, ⟨3, by decide⟩, ⟨1, by decide⟩⟩ =
      .ok (prover ⟨1, by decide⟩) :=
    ofInputs_eq_ok_iff.mpr ⟨rfl, rfl, by decide, by decide +kernel, by decide⟩
  have h' : ofInputs s ⟨⟨2, by decide⟩, ⟨3, by decide⟩, ⟨1, by decide⟩⟩ =
      .ok (prover ⟨2, by decide⟩) :=
    ofInputs_eq_ok_iff.mpr ⟨rfl, rfl, by decide, by decide +kernel, by decide⟩
  obtain ⟨-, himage, hcounts⟩ := responses_hide_exponent h true
  refine ⟨h, ?_, (hcounts s _ _ h' rfl).1⟩
  rw [himage]
  rintro ⟨t, ⟨-, hne⟩, ht⟩
  cases ht
  exact hne (by decide)

end Prover

end DlogProof
