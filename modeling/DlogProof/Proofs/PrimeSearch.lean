import DlogProof.Modular.SafePrime
import DlogProof.Proofs.Sampling
import Mathlib.Data.Nat.Prime.Basic

namespace DlogProof

theorem mem_smallPrimes_iff {r : ℕ} : r ∈ smallPrimes ↔ r < 1000 ∧ r.Prime := by
  rw [smallPrimes, List.mem_filter, List.mem_range, Nat.prime_def_lt']
  simp only [Bool.and_eq_true, decide_eq_true_iff, List.all_eq_true, List.mem_range,
    Bool.or_eq_true, bne_iff_ne, ne_eq, Nat.dvd_iff_mod_eq_zero]
  refine and_congr_right fun _ => and_congr_right fun _ => forall_congr' fun d => ?_
  constructor
  · intro h h2 hlt
    exact (h hlt).resolve_left (by omega)
  · intro h hlt
    by_cases h2 : d < 2
    · exact Or.inl h2
    · exact Or.inr (h (by omega) hlt)

/-- Below a million, the small primes decide which numbers are prime. -/
theorem trialDivision_iff {m : ℕ} (h2 : 2 ≤ m) (hlt : m < 1000 ^ 2) :
    (∀ r ∈ smallPrimes, m % r ≠ 0 ∨ m = r) ↔ m.Prime := by
  constructor
  · intro h
    by_contra hcomp
    -- The least factor of a composite number is at most its square root.
    have hmin : m.minFac.Prime := Nat.minFac_prime (by omega)
    have hsquare : m.minFac ^ 2 ≤ m := Nat.minFac_sq_le_self (by omega) hcomp
    have hsmall : m.minFac < 1000 :=
      (Nat.pow_lt_pow_iff_left (by decide)).mp (hsquare.trans_lt hlt)
    rcases h m.minFac (mem_smallPrimes_iff.mpr ⟨hsmall, hmin⟩) with hno | he
    · exact hno (Nat.mod_eq_zero_of_dvd m.minFac_dvd)
    · exact hcomp (he ▸ hmin)
  · intro hp r hr
    by_cases hdvd : m % r = 0
    · exact Or.inr ((Nat.prime_dvd_prime_iff_eq (mem_smallPrimes_iff.mp hr).2 hp).mp
        (Nat.dvd_of_mod_eq_zero hdvd)).symm
    · exact Or.inl hdvd

theorem hasNoSmallFactor_iff {n : ℕ} (hn : 4 ≤ n) (hlt : n < 1000 ^ 2) :
    hasNoSmallFactor n = true ↔ n.Prime ∧ (n / 2).Prime := by
  rw [← trialDivision_iff (by omega) hlt, ← trialDivision_iff (m := n / 2) (by omega) (by omega),
    ← forall₂_and]
  simp only [hasNoSmallFactor, List.all_eq_true, Bool.and_eq_true, Bool.or_eq_true, bne_iff_ne,
    beq_iff_eq]

theorem isSafePrime_of_prime {n : ℕ} (hn : 4 ≤ n) (hlt : n < 1000 ^ 2) (hp : n.Prime)
    (hhalf : (n / 2).Prime) (ht : (isProbablePrime n && isProbablePrime (n / 2)) = true) :
    isSafePrime n = true := by
  rw [isSafePrime, (hasNoSmallFactor_iff hn hlt).mpr ⟨hp, hhalf⟩, Bool.true_and, ht]

theorem findSafePrime_eq_some {count n r : ℕ} (h : findSafePrime count n = some r) :
    isSafePrime r = true ∧ n ≤ r ∧ r + 4 ≤ n + 4 * count ∧ r % 4 = n % 4 := by
  induction count generalizing n with
  | zero => cases h
  | succ count ih =>
    rw [findSafePrime] at h
    split at h
    · rename_i hs
      cases h
      exact ⟨hs, le_rfl, by omega, rfl⟩
    · obtain ⟨hs, hle, hlt, hmod⟩ := ih h
      exact ⟨hs, by omega, by omega, by omega⟩

theorem two_pow_le_safePrimeStart (bits v : ℕ) : 2 ^ (bits - 1) ≤ safePrimeStart bits v :=
  Nat.right_le_or.trans Nat.left_le_or

theorem safePrimeStart_mod_four (bits v : ℕ) : safePrimeStart bits v % 4 = 3 := by
  have hall : ∀ r < 4, r ||| 3 = 3 := by decide
  rw [safePrimeStart, show 4 = 2 ^ 2 from rfl, Nat.or_mod_two_pow]
  exact hall _ (Nat.mod_lt _ (by decide))

theorem safePrimeStart_range {bits : ℕ} (hb : 3 ≤ bits) (v : ℕ) :
    4 ≤ safePrimeStart bits v ∧ safePrimeStart bits v < 2 ^ bits := by
  have htop : 2 ^ (bits - 1) < 2 ^ bits := Nat.pow_lt_pow_right (by decide) (by omega)
  have hfour : 2 ^ 2 ≤ 2 ^ (bits - 1) := Nat.pow_le_pow_right (by decide) (by omega)
  refine ⟨hfour.trans (two_pow_le_safePrimeStart bits v), ?_⟩
  exact Nat.or_lt_two_pow (Nat.or_lt_two_pow (Nat.mod_lt _ (Nat.two_pow_pos _)) htop) (by omega)

theorem nextSafePrime?_eq_some {bits n r : ℕ} (hn : n < 2 ^ bits)
    (h : nextSafePrime? bits n = some r) :
    isSafePrime r = true ∧ n ≤ r ∧ r < 2 ^ bits ∧ r % 4 = n % 4 := by
  obtain ⟨hs, hle, hlt, hmod⟩ := findSafePrime_eq_some h
  exact ⟨hs, hle, by omega, hmod⟩

section Draws

variable {σ ε : Type} [EntropySource σ] {limbs bits fuel : ℕ} {s s' : σ} {v : Uint limbs}

theorem drawSafePrime_eq_ok (h : (drawSafePrime limbs bits fuel : Draw σ ε _) s = (.ok v, s')) :
    ∃ w, nextSafePrime? bits (safePrimeStart bits w) = some v.val := by
  unfold drawSafePrime at h
  obtain ⟨r, t, hr, hk⟩ := Draw.bind_eq_ok.mp h
  obtain ⟨t', ht⟩ := Draw.untilSome_eq_ok hr
  obtain ⟨w, t'', -, hw⟩ := Draw.bind_eq_ok.mp ht
  simp only [Draw.pure_apply, Prod.mk.injEq, Except.ok.injEq] at hw
  cases hv : (Uint.ofNat? r : Option (Uint limbs)) with
  | none =>
    rw [hv] at hk
    cases hk
  | some u =>
    rw [hv] at hk
    cases hk
    exact ⟨w, by rw [hw.1, Uint.ofNat?_eq_some_iff.mp hv]⟩

/-- The primes that are drawn have the given size, and are 3 modulo 4. -/
theorem drawSafePrime_bits (hb : 3 ≤ bits)
    (h : (drawSafePrime limbs bits fuel : Draw σ ε _) s = (.ok v, s')) :
    v.bits = bits ∧ v.val % 4 = 3 := by
  obtain ⟨w, hw⟩ := drawSafePrime_eq_ok h
  obtain ⟨-, hle, hlt, hmod⟩ := nextSafePrime?_eq_some (safePrimeStart_range hb w).2 hw
  have htop : ¬ v.bits ≤ bits - 1 := by
    rw [Uint.bits_le_iff, Nat.not_lt]
    exact (two_pow_le_safePrimeStart bits w).trans hle
  have hfit : v.bits ≤ bits := Uint.bits_le_iff.mpr hlt
  exact ⟨by omega, hmod.trans (safePrimeStart_mod_four bits w)⟩

/-- The primes that are drawn are prime. For larger ones this is for the two probabilistic tests to
tell. -/
theorem drawSafePrime_prime (hb : 3 ≤ bits) (hb' : bits ≤ 19)
    (h : (drawSafePrime limbs bits fuel : Draw σ ε _) s = (.ok v, s')) :
    v.val.Prime ∧ (v.val / 2).Prime := by
  obtain ⟨w, hw⟩ := drawSafePrime_eq_ok h
  obtain ⟨hfour, hlt⟩ := safePrimeStart_range hb w
  obtain ⟨hs, hle, hr, -⟩ := nextSafePrime?_eq_some hlt hw
  have hmax : 2 ^ bits ≤ 2 ^ 19 := Nat.pow_le_pow_right (by decide) hb'
  simp only [isSafePrime, Bool.and_eq_true] at hs
  exact (hasNoSmallFactor_iff (by omega) (by omega)).mp hs.1.1

/-- A starting point that is a safe prime is the prime that is drawn. -/
theorem drawSafePrime_of_drawWords {w : ℕ}
    (hw : drawWords ((bits + 63) / 64) s = (.ok w, s'))
    (hv : safePrimeStart bits w = v.val) (hlt : v.val < 2 ^ bits)
    (hs : isSafePrime v.val = true) :
    (drawSafePrime limbs bits (fuel + 1) : Draw σ ε _) s = (.ok v, s') := by
  have hcount : (2 ^ bits - v.val + 3) / 4 = (2 ^ bits - v.val - 1) / 4 + 1 := by omega
  have hnext : nextSafePrime? bits (safePrimeStart bits w) = some v.val := by
    rw [nextSafePrime?, hv, hcount, findSafePrime, if_pos hs]
  have horAbort : ((drawWords ((bits + 63) / 64)).orAbort : Draw σ ε _) s = (.ok w, s') :=
    Draw.mapStop_eq_ok.mpr hw
  have hattempt : (attemptSafePrime bits : Draw σ ε _) s = (.ok (some v.val), s') := by
    rw [attemptSafePrime, Draw.bind_ok horAbort, hnext]
    rfl
  have huntil : (attemptSafePrime bits : Draw σ ε _).untilSome (fuel + 1) s = (.ok v.val, s') := by
    rw [Draw.untilSome, Draw.bind_ok hattempt]
    rfl
  rw [drawSafePrime, Draw.bind_ok huntil, Uint.ofNat?_eq_some_iff.mpr rfl]
  rfl

end Draws

end DlogProof
