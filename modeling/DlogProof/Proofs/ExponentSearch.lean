import DlogProof.Entropy.Script
import DlogProof.Proofs.LocalParams
import DlogProof.Proofs.Malleability
import DlogProof.Proofs.Refusal
import DlogProof.Proofs.ResidueSubgroup
import Mathlib.Data.Set.Card
import Mathlib.Data.ZMod.Units
import Mathlib.GroupTheory.Index

namespace DlogProof

open Nat (totient)

/-- The order of `b` modulo the part of `n` that has no factor of `b`. -/
noncomputable def coprimeOrder (b n : ℕ) : ℕ := orderOf (b : ZMod (n / b.gcd n))

section Order

variable {b n : ℕ} (hn : Squarefree n) (hb : b ≠ 0)
include hn hb

theorem pow_modEq_self_iff {e : ℕ} (he : 0 < e) :
    b ^ e ≡ b [MOD n] ↔ e ≡ 1 [MOD coprimeOrder b n] := by
  have hmul : b.gcd n * (n / b.gcd n) = n := Nat.mul_div_cancel' (Nat.gcd_dvd_right b n)
  have hc : b.Coprime (n / b.gcd n) := by
    rw [Nat.gcd_comm]
    exact (Nat.coprime_div_gcd_of_squarefree hn hb).symm
  -- Modulo the common factor, both sides are zero.
  have hcommon : b ^ e ≡ b [MOD b.gcd n] := by
    have hz : b ≡ 0 [MOD b.gcd n] := Nat.modEq_zero_iff_dvd.mpr (Nat.gcd_dvd_left b n)
    have hpow := hz.pow e
    rw [zero_pow he.ne'] at hpow
    exact hpow.trans hz.symm
  have hsplit := Nat.modEq_and_modEq_iff_modEq_mul (a := b ^ e) (b := b)
    (hc.coprime_dvd_left (Nat.gcd_dvd_left b n))
  rw [hmul] at hsplit
  rw [← hsplit, and_iff_right hcommon, coprimeOrder, ← pow_modEq_pow_iff hc, pow_one]

theorem coprimeOrder_dvd {m : ℕ} (h : HasPeriod b m n) : coprimeOrder b n ∣ m := by
  have hone : m + 1 ≡ 0 + 1 [MOD coprimeOrder b n] :=
    (pow_modEq_self_iff hn hb (Nat.succ_pos m)).mp h
  exact Nat.modEq_zero_iff_dvd.mp (Nat.ModEq.add_right_cancel' 1 hone)

theorem coprimeOrder_eq_one_iff : coprimeOrder b n = 1 ↔ b ^ 2 ≡ b [MOD n] := by
  rw [pow_modEq_self_iff hn hb Nat.two_pos, Nat.ModEq.comm, Nat.modEq_iff_dvd' (by decide),
    Nat.dvd_one]

end Order

theorem sq_modEq_self_iff {p : ℕ} (hp : p.Prime) (b : ℕ) :
    b ^ 2 ≡ b [MOD p] ↔ b % p = 0 ∨ b % p = 1 := by
  have : Fact p.Prime := ⟨hp⟩
  have hone : b % p = 1 ↔ b ≡ 1 [MOD p] := by rw [Nat.ModEq, Nat.mod_eq_of_lt hp.one_lt]
  rw [hone, ← Nat.dvd_iff_mod_eq_zero, ← ZMod.natCast_eq_natCast_iff, ← ZMod.natCast_eq_natCast_iff,
    ← ZMod.natCast_eq_zero_iff, Nat.cast_pow, pow_two, Nat.cast_one]
  exact IsIdempotentElem.iff_eq_zero_or_one

section Units

variable {m d : ℕ} [NeZero m]

theorem mem_ker_unitsMap_iff (hd : d ∣ m) (u : (ZMod m)ˣ) :
    u ∈ (ZMod.unitsMap hd).ker ↔ u.val.val ≡ 1 [MOD d] := by
  rw [MonoidHom.mem_ker, ← Units.val_inj, ZMod.unitsMap_val hd, Units.val_one, ZMod.cast_eq_val,
    ← Nat.cast_one, ZMod.natCast_eq_natCast_iff]

theorem card_ker_unitsMap (hd : d ∣ m) :
    Nat.card (ZMod.unitsMap hd).ker = totient m / totient d := by
  have : NeZero d := ⟨ne_zero_of_dvd_ne_zero (NeZero.ne m) hd⟩
  have hindex : (ZMod.unitsMap hd).ker.index = totient d := by
    rw [Subgroup.index_ker, MonoidHom.range_eq_top.mpr (ZMod.unitsMap_surjective hd),
      Subgroup.card_top, Nat.card_eq_fintype_card, ZMod.card_units_eq_totient]
  have hcard := (ZMod.unitsMap hd).ker.card_mul_index
  rw [hindex, Nat.card_eq_fintype_card (α := (ZMod m)ˣ), ZMod.card_units_eq_totient] at hcard
  rw [← hcard, Nat.mul_div_cancel _ (Nat.totient_pos.mpr (NeZero.pos d))]

/-- Of the units modulo `m`, one in `φ d` is one modulo the divisor `d`. -/
theorem card_units_modEq_one (hd : d ∣ m) :
    ((Finset.range m).filter fun a => m.Coprime a ∧ a ≡ 1 [MOD d]).card =
      totient m / totient d := by
  have hinj : Function.Injective fun u : (ZMod m)ˣ => u.val.val :=
    (ZMod.val_injective m).comp Units.val_injective
  have himage : (fun u : (ZMod m)ˣ => u.val.val) '' (ZMod.unitsMap hd).ker =
      ((Finset.range m).filter fun a => m.Coprime a ∧ a ≡ 1 [MOD d] : Finset ℕ) := by
    ext a
    simp only [Set.mem_image, SetLike.mem_coe, mem_ker_unitsMap_iff, Finset.coe_filter,
      Finset.mem_range, Set.mem_ofPred_eq]
    constructor
    · rintro ⟨u, hone, rfl⟩
      exact ⟨ZMod.val_lt _, (ZMod.val_coe_unit_coprime u).symm, hone⟩
    · rintro ⟨hlt, hc, hone⟩
      have hval : (ZMod.unitOfCoprime a hc.symm).val.val = a := by
        rw [ZMod.coe_unitOfCoprime, ZMod.val_natCast, Nat.mod_eq_of_lt hlt]
      exact ⟨_, hval.symm ▸ hone, hval⟩
  rw [← card_ker_unitsMap hd, ← Set.ncard_coe_finset, ← himage, Set.ncard_image_of_injective _ hinj]
  rfl

theorem card_units_not_modEq_one (hd : d ∣ m) :
    ((Finset.range m).filter fun a => m.Coprime a ∧ ¬ a ≡ 1 [MOD d]).card =
      totient m - totient m / totient d := by
  have hsplit := Finset.card_filter_add_card_filter_not (s := (Finset.range m).filter m.Coprime)
    (p := fun a => a ≡ 1 [MOD d])
  rw [Finset.filter_filter, Finset.filter_filter, card_units_modEq_one hd,
    ← Nat.totient_eq_card_coprime] at hsplit
  omega

/-- If the divisor is odd, all units are one modulo it only if it is one itself. -/
theorem totient_sub_div_eq_zero_iff (hd : d ∣ m) (hodd : Odd m) :
    totient m - totient m / totient d = 0 ↔ d = 1 := by
  have hpos : 0 < totient m := Nat.totient_pos.mpr (NeZero.pos m)
  have hne : d ≠ 2 := by
    rintro rfl
    exact (Nat.not_even_iff_odd.mpr hodd) (even_iff_two_dvd.mpr hd)
  have hle : totient m ≤ totient m / totient d ↔ totient m / totient d = totient m :=
    ⟨fun h => (Nat.div_le_self _ _).antisymm h, ge_of_eq⟩
  rw [Nat.sub_eq_zero_iff_le, hle, Nat.div_eq_self, or_iff_right hpos.ne', Nat.totient_eq_one_iff,
    or_iff_left hne]

end Units

/-- A script without a sponge grants a request for all of its bytes. -/
theorem Script.request_ofBytes (bytes : List UInt8) :
    EntropySource.request bytes.length (ofBytes bytes none) =
      (.ok bytes, (⟨[], none, bytes.length⟩ : Script)) := by
  show request _ _ = _
  simp [request, fill, ofBytes]

instance Uint.finite (limbs : ℕ) : Finite (Uint limbs) :=
  Finite.of_injective (fun a => (⟨a.val, a.val_lt⟩ : Fin (2 ^ (64 * limbs))))
    fun _ _ h => ext_val (Fin.val_eq_of_eq h)

namespace LocalParams

variable {P : Params} {n order : OddModulus P.limbs} {h1 alpha : P.Integer}

/-- The exponents in `[1, order)` with which the search for an exponent ends. -/
def exitingExponents (n order : OddModulus P.limbs) (h1 : P.Integer) : Set P.Integer :=
  {alpha | (0 < alpha.val ∧ alpha.val < order.modulus.val) ∧
    ∃ found, partnerOf? n order h1 alpha = some found}

/-- Whether the search for an exponent ends with one, for some source and number of attempts. -/
def ExponentSearchEnds (n order : OddModulus P.limbs) (h1 : P.Integer) : Prop :=
  ∃ (σ : Type) (_ : EntropySource σ) (fuel : ℕ) (s s' : σ)
    (found : P.Integer × P.Integer × P.Integer), drawExponent fuel n order h1 s = (.ok found, s')

theorem exists_partnerOf?_eq_some_iff :
    (∃ found, partnerOf? n order h1 alpha = some found) ↔
      alpha.val.Coprime order.modulus.val ∧ n.powBounded h1 alpha P.modulusBits ≠ h1 := by
  rw [← OddModulus.inverse?_isSome_iff, Option.isSome_iff_exists]
  constructor
  · rintro ⟨⟨beta, h2⟩, hfound⟩
    obtain ⟨hinverse, rfl, hne⟩ := partnerOf?_eq_some_iff.mp hfound
    exact ⟨⟨beta, hinverse⟩, hne⟩
  · rintro ⟨⟨beta, hinverse⟩, hne⟩
    exact ⟨_, partnerOf?_eq_some_iff.mpr ⟨hinverse, rfl, hne⟩⟩

section Search

variable {σ : Type} [EntropySource σ] {s s' : σ} {block : List UInt8}

/-- A block of the source that holds such an exponent ends the search. -/
theorem drawExponent_of_granted (fuel : ℕ) (h : alpha ∈ exitingExponents n order h1)
    (hreq : EntropySource.request (blockLength order.modulus.bits) s = (.ok block, s'))
    (hblock : blockValue order.modulus.val block = alpha.val) :
    ∃ found, drawExponent (fuel + 1) n order h1 s = (.ok found, s') := by
  obtain ⟨hrange, ⟨beta, h2⟩, hfound⟩ := h
  have hdraw : ((drawPositiveBelow (fuel + 1) order.modulus).mapError GenerationError.sampling) s =
      (.ok alpha, s') :=
    Draw.mapError_eq_ok.mpr (drawPositiveBelow_of_granted fuel hrange hreq hblock)
  refine ⟨(alpha, beta, h2), ?_⟩
  rw [drawExponent, Draw.untilSome]
  refine Draw.bind_eq_ok.mpr ⟨some (alpha, beta, h2), s', ?_, rfl⟩
  refine Draw.bind_eq_ok.mpr ⟨alpha, s', hdraw, ?_⟩
  rw [hfound]
  rfl

end Search

theorem exponentSearchEnds_iff :
    ExponentSearchEnds n order h1 ↔ (exitingExponents n order h1).Nonempty := by
  constructor
  · rintro ⟨σ, _, fuel, s, s', ⟨alpha, found⟩, hrun⟩
    obtain ⟨hrange, hpartner⟩ := drawExponent_eq_ok hrun
    exact ⟨alpha, hrange, found, hpartner⟩
  · rintro ⟨alpha, halpha⟩
    -- A source that delivers the exponent at once.
    let block := beBytes (blockLength order.modulus.bits) alpha.val
    have hreq := Script.request_ofBytes block
    rw [beBytes_length] at hreq
    obtain ⟨found, hrun⟩ := drawExponent_of_granted 0 halpha hreq (blockValue_beBytes halpha.1.2.le)
    exact ⟨Script, inferInstance, 1, _, _, found, hrun⟩

section Count

variable (hn : Squarefree n.modulus.val) (hh1 : 0 < h1.val ∧ h1.val < n.modulus.val)
  (hbits : order.modulus.bits ≤ P.modulusBits)
include hn hh1 hbits

theorem powBounded_eq_self_iff (halpha : 0 < alpha.val ∧ alpha.val < order.modulus.val) :
    n.powBounded h1 alpha P.modulusBits = h1 ↔
      alpha.val ≡ 1 [MOD coprimeOrder h1.val n.modulus.val] := by
  have hfit : alpha.val < 2 ^ P.modulusBits := halpha.2.trans (Uint.bits_le_iff.mp hbits)
  rw [← Uint.val_inj, n.powBounded_val_of_lt h1 hfit,
    ← pow_modEq_self_iff hn hh1.1.ne' halpha.1, Nat.ModEq, Nat.mod_eq_of_lt hh1.2]

theorem mem_exitingExponents_iff (horder : 1 < order.modulus.val) :
    alpha ∈ exitingExponents n order h1 ↔ alpha.val < order.modulus.val ∧
      order.modulus.val.Coprime alpha.val ∧
        ¬ alpha.val ≡ 1 [MOD coprimeOrder h1.val n.modulus.val] := by
  rw [exitingExponents, Set.mem_ofPred_eq, exists_partnerOf?_eq_some_iff, Nat.coprime_comm]
  constructor
  · rintro ⟨hrange, hc, hne⟩
    exact ⟨hrange.2, hc, fun hone => hne ((powBounded_eq_self_iff hn hh1 hbits hrange).mpr hone)⟩
  · rintro ⟨hlt, hc, hne⟩
    -- Zero is coprime to one only.
    have hpos : 0 < alpha.val := by
      apply Nat.pos_of_ne_zero
      intro hz
      rw [hz, Nat.coprime_zero_right] at hc
      omega
    exact ⟨⟨hpos, hlt⟩, hc, fun he => hne ((powBounded_eq_self_iff hn hh1 hbits ⟨hpos, hlt⟩).mp he)⟩

theorem ncard_exitingExponents (horder : 1 < order.modulus.val)
    (hd : coprimeOrder h1.val n.modulus.val ∣ order.modulus.val) :
    (exitingExponents n order h1).ncard = totient order.modulus.val -
      totient order.modulus.val / totient (coprimeOrder h1.val n.modulus.val) := by
  have : NeZero order.modulus.val := ⟨order.pos.ne'⟩
  have hinj : Function.Injective (Uint.val : P.Integer → ℕ) := fun _ _ => Uint.ext_val
  have himage : Uint.val '' exitingExponents n order h1 =
      ((Finset.range order.modulus.val).filter fun a => order.modulus.val.Coprime a ∧
        ¬ a ≡ 1 [MOD coprimeOrder h1.val n.modulus.val] : Finset ℕ) := by
    ext a
    simp only [Set.mem_image, mem_exitingExponents_iff hn hh1 hbits horder, Finset.coe_filter,
      Finset.mem_range, Set.mem_ofPred_eq]
    constructor
    · rintro ⟨alpha, halpha, rfl⟩
      exact halpha
    · intro ha
      exact ⟨⟨a, ha.1.trans order.modulus.val_lt⟩, ha, rfl⟩
  rw [← Set.ncard_image_of_injective _ hinj, himage, Set.ncard_coe_finset,
    card_units_not_modEq_one hd]

theorem exponentSearchEnds_iff_coprimeOrder_ne_one (horder : 1 < order.modulus.val)
    (hd : coprimeOrder h1.val n.modulus.val ∣ order.modulus.val) :
    ExponentSearchEnds n order h1 ↔ coprimeOrder h1.val n.modulus.val ≠ 1 := by
  have : NeZero order.modulus.val := ⟨order.pos.ne'⟩
  rw [exponentSearchEnds_iff, Set.nonempty_iff_ne_empty, ne_eq, ← Set.ncard_eq_zero,
    ncard_exitingExponents hn hh1 hbits horder hd,
    totient_sub_div_eq_zero_iff hd (Nat.odd_iff.mpr order.odd)]

end Count

/-- How many exponents end the search, and when none does. If the square that it is given is zero or
one modulo each of the primes, the search goes on for ever whatever the source delivers, but squares
of units are never such. Apart from that, only a refusal of the source ends it. All bits of the
exponents count in the powers, as they do in a run. -/
theorem exponentSearchEnds_iff_residues {safeP safeQ r h1 : P.Integer}
    {n order : OddModulus P.limbs}
    (hP : SafePrime safeP.val) (hQ : SafePrime safeQ.val) (hne : safeP ≠ safeQ)
    (hn : n.modulus.val = safeP.val * safeQ.val)
    (horder : order.modulus.val = safeP.half.val * safeQ.half.val)
    (hbits : order.modulus.bits ≤ P.modulusBits) (hr : generatorOf? n r = some h1) :
    (exitingExponents n order h1).ncard = totient order.modulus.val -
      totient order.modulus.val / totient (coprimeOrder h1.val n.modulus.val) ∧
    (¬ ExponentSearchEnds n order h1 ↔
      ∀ safe ∈ [safeP, safeQ], h1.val % safe.val = 0 ∨ h1.val % safe.val = 1) ∧
    (r.val.Coprime n.modulus.val → ExponentSearchEnds n order h1) ∧
    ∀ (σ : Type) [EntropySource σ] (fuel : ℕ) (s s' : σ) (stop : Stop GenerationError),
      drawExponent fuel n order h1 s = (.error stop, s') →
        stop.Refused σ GenerationError.refused := by
  obtain ⟨rfl, hgt⟩ := generatorOf?_eq_some_iff.mp hr
  have hprimes : safeP.val ≠ safeQ.val := fun he => hne (Uint.ext_val he)
  have hsquarefree : Squarefree n.modulus.val := hn ▸ squarefree_mul_of_primes hP.1 hQ.1 hprimes
  have hrange : 0 < (n.mul r r).val ∧ (n.mul r r).val < n.modulus.val :=
    ⟨Nat.zero_lt_of_lt hgt, Nat.mod_lt _ n.pos⟩
  have htwo : 1 < order.modulus.val := horder ▸ Nat.one_lt_mul_iff.mpr
    ⟨hP.2.pos, hQ.2.pos, Or.inl hP.2.one_lt⟩
  have hd : coprimeOrder (n.mul r r).val n.modulus.val ∣ order.modulus.val :=
    horder ▸ coprimeOrder_dvd hsquarefree hrange.1.ne'
      (OddModulus.mul_self_period hP.1 hQ.1 hne hn r)
  have hends := exponentSearchEnds_iff_coprimeOrder_ne_one hsquarefree hrange hbits htwo hd
  refine ⟨ncard_exitingExponents hsquarefree hrange hbits htwo hd, ?_, ?_, ?_⟩
  · rw [hends, not_ne_iff, coprimeOrder_eq_one_iff hsquarefree hrange.1.ne', hn,
      ← Nat.modEq_and_modEq_iff_modEq_mul ((Nat.coprime_primes hP.1 hQ.1).mpr hprimes),
      sq_modEq_self_iff hP.1, sq_modEq_self_iff hQ.1, List.forall_mem_cons,
      List.forall_mem_singleton]
  · intro hc
    rw [hends]
    intro hone
    have hgcd : (n.mul r r).val.gcd n.modulus.val = 1 := (gcd_square_mod hsquarefree r.val).trans hc
    rw [coprimeOrder, hgcd, Nat.div_one, orderOf_eq_one_iff, ← Nat.cast_one,
      ZMod.natCast_eq_natCast_iff] at hone
    exact hgt.ne' (hone.eq_of_lt_of_lt hrange.2 (hgt.trans hrange.2))
  · intro σ _ fuel s s' stop hrun
    exact drawExponent_stopsOnly htwo s stop s' hrun

/-- For the primes 167 and 227, all but 82 of the units end the search for the square of 167, and
none ends it for the square of 14529, which is zero modulo one of the primes and one modulo the
other. -/
theorem exponentSearchEnds_iff_residues_eightBit :
    let n : OddModulus 1 := ⟨LocalParams.eightBit.modulus, by decide⟩
    let order : OddModulus 1 := ⟨⟨9379, by decide⟩, by decide⟩
    (exitingExponents (P := .eightBit) n order LocalParams.eightBit.h1).ncard = 9184 - 82 ∧
      generatorOf? (P := .eightBit) n ⟨14529, by decide⟩ = some ⟨14529, by decide⟩ ∧
      ¬ ExponentSearchEnds (P := .eightBit) n order ⟨14529, by decide⟩ := by
  intro n order
  have hP : SafePrime 167 := ⟨by norm_num, by norm_num⟩
  have hQ : SafePrime 227 := ⟨by norm_num, by norm_num⟩
  have hne : (⟨167, by decide⟩ : Uint 1) ≠ ⟨227, by decide⟩ := by decide
  have hbits : order.modulus.bits ≤ Params.eightBit.modulusBits := by decide +kernel
  have hr : generatorOf? (P := .eightBit) n ⟨167, by decide⟩ = some LocalParams.eightBit.h1 := by
    decide +kernel
  have hr' : generatorOf? (P := .eightBit) n ⟨14529, by decide⟩ = some ⟨14529, by decide⟩ := by
    decide +kernel
  have htotient : totient order.modulus.val = 9184 := by
    show totient (83 * 113) = _
    rw [Nat.totient_mul (by decide), Nat.totient_prime (by norm_num),
      Nat.totient_prime (by norm_num)]
  have hd : totient (coprimeOrder LocalParams.eightBit.h1.val n.modulus.val) = 112 := by
    have horder : coprimeOrder LocalParams.eightBit.h1.val n.modulus.val = 113 := by
      have : Fact (Nat.Prime 113) := ⟨by norm_num⟩
      have hpart : n.modulus.val / LocalParams.eightBit.h1.val.gcd n.modulus.val = 227 := by
        decide +kernel
      rw [coprimeOrder, hpart]
      exact orderOf_eq_prime (by decide +kernel) (by decide +kernel)
    rw [horder, Nat.totient_prime (by norm_num)]
  have hcount := (exponentSearchEnds_iff_residues hP hQ hne rfl rfl hbits hr).1
  rw [htotient, hd] at hcount
  exact ⟨hcount, hr',
    (exponentSearchEnds_iff_residues hP hQ hne rfl rfl hbits hr').2.1.mpr (by decide +kernel)⟩

end LocalParams

end DlogProof
