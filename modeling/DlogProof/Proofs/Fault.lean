import DlogProof.Keygen.Finalize
import DlogProof.Proofs.PartyMap
import Mathlib.Data.Set.Basic

namespace DlogProof

variable {P : Params}

/-- The place of a fault in the order in which the faults of one announcement are looked for. -/
def Fault.rank : Fault → ℕ
  | .paillierModulusSize _ _ => 0
  | .h1EqualsH2 => 1
  | .modulusSize _ _ => 2
  | .h1Reused => 3
  | .h2Reused => 4
  | .firstProofFailed => 5
  | .secondProofFailed => 6

namespace Announcement

/-- Whether an announcement has a fault of form, where `seen` holds the generators before it. Its
proofs are not looked at. -/
def HasFault (a : Announcement P) (seen : Set P.Integer) : Fault → Prop
  | .paillierModulusSize expected actual => a.paillierModulus.bits ≠ P.modulusBits ∧
      expected = P.modulusBits ∧ actual = a.paillierModulus.bits
  | .h1EqualsH2 => a.h1 = a.h2
  | .modulusSize expected actual => a.modulus.bits ≠ P.modulusBits ∧
      expected = P.modulusBits ∧ actual = a.modulus.bits
  | .h1Reused => a.h1 ∈ seen
  | .h2Reused => a.h2 ∈ seen
  | .firstProofFailed => False
  | .secondProofFailed => False

/-- Whether a fault is the first one of an announcement. -/
def FirstFault (a : Announcement P) (seen : Set P.Integer) (fault : Fault) : Prop :=
  a.HasFault seen fault ∧ ∀ other, a.HasFault seen other → fault.rank ≤ other.rank

/-- Whether an announcement has no fault of form. -/
def WellFormed (a : Announcement P) (seen : Set P.Integer) : Prop :=
  ∀ fault, ¬ a.HasFault seen fault

theorem wellFormed_of_fault?_eq_none {a : Announcement P} {seen : List P.Integer}
    (h : a.fault? seen = none) : a.WellFormed {x | x ∈ seen} := by
  unfold fault? at h
  split_ifs at h with h1 h2 h3 h4 h5
  intro fault hf
  cases fault with
  | paillierModulusSize => exact h1 hf.1
  | h1EqualsH2 => exact h2 hf
  | modulusSize => exact h3 hf.1
  | h1Reused => exact h4 hf
  | h2Reused => exact h5 (List.mem_cons_of_mem _ hf)
  | firstProofFailed => exact hf
  | secondProofFailed => exact hf

theorem firstFault_of_fault?_eq_some {a : Announcement P} {seen : List P.Integer} {fault : Fault}
    (h : a.fault? seen = some fault) : a.FirstFault {x | x ∈ seen} fault := by
  unfold fault? at h
  split_ifs at h with h1 h2 h3 h4 h5 <;> cases h
  · exact ⟨⟨h1, rfl, rfl⟩, fun _ _ => Nat.zero_le _⟩
  · refine ⟨h2, fun other ho => ?_⟩
    cases other <;> simp_all [HasFault, Fault.rank]
  · refine ⟨⟨h3, rfl, rfl⟩, fun other ho => ?_⟩
    cases other <;> simp_all [HasFault, Fault.rank]
  · refine ⟨h4, fun other ho => ?_⟩
    cases other <;> simp_all [HasFault, Fault.rank]
  -- The scan adds `h1` to the generators seen before it looks for `h2`, but the two differ.
  · have hmem : a.h2 ∈ seen := (List.mem_cons.mp h5).resolve_left (Ne.symm h2)
    refine ⟨hmem, fun other ho => ?_⟩
    cases other <;> simp_all [HasFault, Fault.rank]

theorem FirstFault.unique {a : Announcement P} {seen : Set P.Integer} {f g : Fault}
    (hf : a.FirstFault seen f) (hg : a.FirstFault seen g) : f = g := by
  have hr : f.rank = g.rank := Nat.le_antisymm (hf.2 g hg.1) (hg.2 f hf.1)
  have hf' := hf.1
  have hg' := hg.1
  cases f <;> cases g <;> simp_all [HasFault, Fault.rank]

theorem fault?_eq_none_iff {a : Announcement P} {seen : List P.Integer} :
    a.fault? seen = none ↔ a.WellFormed {x | x ∈ seen} := by
  constructor
  · exact wellFormed_of_fault?_eq_none
  · intro hw
    cases h : a.fault? seen with
    | none => rfl
    | some fault => exact absurd (firstFault_of_fault?_eq_some h).1 (hw fault)

theorem fault?_eq_some_iff {a : Announcement P} {seen : List P.Integer} {fault : Fault} :
    a.fault? seen = some fault ↔ a.FirstFault {x | x ∈ seen} fault := by
  constructor
  · exact firstFault_of_fault?_eq_some
  · intro hf
    cases h : a.fault? seen with
    | none => exact absurd hf.1 (wellFormed_of_fault?_eq_none h fault)
    | some found => rw [(firstFault_of_fault?_eq_some h).unique hf]

end Announcement

/-- The generators that the scan has seen when it gets to a party: those it starts from, and those
of the parties with a smaller index. -/
def seenBefore (seen : Set P.Integer) (entries : List (PartyIdx × Announcement P))
    (party : PartyIdx) : Set P.Integer :=
  {x | x ∈ seen ∨ ∃ e ∈ entries, e.1 < party ∧ (x = e.2.h1 ∨ x = e.2.h2)}

/-- Whether a party is the first one of a list with a fault of form, and the fault is its first. -/
def FirstFaultIn (seen : Set P.Integer) (entries : List (PartyIdx × Announcement P))
    (party : PartyIdx) (fault : Fault) : Prop :=
  ∃ a, (party, a) ∈ entries ∧ a.FirstFault (seenBefore seen entries party) fault ∧
    ∀ d ∈ entries, d.1 < party → d.2.WellFormed (seenBefore seen entries d.1)

section Scan

variable {seen : List P.Integer} {e : PartyIdx × Announcement P}
  {es : List (PartyIdx × Announcement P)} {party : PartyIdx} {fault : Fault}

theorem seenBefore_head (h : ∀ d ∈ es, e.1 < d.1) :
    seenBefore {x | x ∈ seen} (e :: es) e.1 = {x | x ∈ seen} := by
  apply Set.ext
  intro x
  refine ⟨fun hx => hx.resolve_right ?_, Or.inl⟩
  rintro ⟨d, hd, hlt, -⟩
  rcases List.mem_cons.mp hd with rfl | hd
  · exact PartyIdx.lt_irrefl _ hlt
  · exact PartyIdx.lt_asymm hlt (h d hd)

theorem seenBefore_tail (h : e.1 < party) :
    seenBefore {x | x ∈ seen} (e :: es) party =
      seenBefore {x | x ∈ e.2.h2 :: e.2.h1 :: seen} es party := by
  apply Set.ext
  intro x
  simp only [seenBefore, Set.mem_ofPred_eq, List.mem_cons, exists_eq_or_imp, h, true_and]
  constructor
  · rintro (hx | (rfl | rfl) | hx)
    · exact Or.inl (Or.inr (Or.inr hx))
    · exact Or.inl (Or.inr (Or.inl rfl))
    · exact Or.inl (Or.inl rfl)
    · exact Or.inr hx
  · rintro ((rfl | rfl | hx) | hx)
    · exact Or.inr (Or.inl (Or.inr rfl))
    · exact Or.inr (Or.inl (Or.inl rfl))
    · exact Or.inl hx
    · exact Or.inr (Or.inr hx)

/-- The scan passes exactly if no announcement has a fault of form. -/
theorem firstFault?_eq_none_iff (hs : es.Pairwise fun d e => d.1 < e.1) :
    firstFault? seen es = none ↔
      ∀ d ∈ es, d.2.WellFormed (seenBefore {x | x ∈ seen} es d.1) := by
  induction es generalizing seen with
  | nil => simp [firstFault?]
  | cons e es ih =>
    obtain ⟨he, hes⟩ := List.pairwise_cons.mp hs
    rw [firstFault?, List.forall_mem_cons, seenBefore_head he, ← Announcement.fault?_eq_none_iff]
    cases hf : e.2.fault? seen with
    | some fault => simp
    | none =>
      dsimp only
      rw [ih hes, and_iff_right rfl]
      exact forall₂_congr fun d hd => by rw [seenBefore_tail (he d hd)]

theorem firstFaultIn_of_head (he : ∀ d ∈ es, e.1 < d.1) {found : Fault}
    (hf : e.2.FirstFault {x | x ∈ seen} found) :
    FirstFaultIn {x | x ∈ seen} (e :: es) party fault ↔ e.1 = party ∧ found = fault := by
  constructor
  · rintro ⟨a, ha, hff, hbefore⟩
    rcases List.mem_cons.mp ha with rfl | ha
    · rw [seenBefore_head he] at hff
      exact ⟨rfl, hf.unique hff⟩
    -- A later party is not reached, as the head is not well-formed.
    · have hw := hbefore e List.mem_cons_self (he _ ha)
      rw [seenBefore_head he] at hw
      exact absurd hf.1 (hw found)
  · rintro ⟨rfl, rfl⟩
    refine ⟨e.2, List.mem_cons_self, (seenBefore_head he).symm ▸ hf, fun d hd hlt => ?_⟩
    rcases List.mem_cons.mp hd with rfl | hd
    · exact absurd hlt (PartyIdx.lt_irrefl _)
    · exact absurd hlt (PartyIdx.lt_asymm (he d hd))

theorem firstFaultIn_of_tail (he : ∀ d ∈ es, e.1 < d.1)
    (hw : e.2.WellFormed {x | x ∈ seen}) :
    FirstFaultIn {x | x ∈ seen} (e :: es) party fault ↔
      FirstFaultIn {x | x ∈ e.2.h2 :: e.2.h1 :: seen} es party fault := by
  constructor
  · rintro ⟨a, ha, hff, hbefore⟩
    rcases List.mem_cons.mp ha with rfl | ha
    · rw [seenBefore_head he] at hff
      exact absurd hff.1 (hw fault)
    · rw [seenBefore_tail (he _ ha)] at hff
      refine ⟨a, ha, hff, fun d hd hlt => ?_⟩
      have hd' := hbefore d (List.mem_cons_of_mem _ hd) hlt
      rwa [seenBefore_tail (he d hd)] at hd'
  · rintro ⟨a, ha, hff, hbefore⟩
    refine ⟨a, List.mem_cons_of_mem _ ha, (seenBefore_tail (he _ ha)).symm ▸ hff, ?_⟩
    intro d hd hlt
    rcases List.mem_cons.mp hd with rfl | hd
    · rw [seenBefore_head he]
      exact hw
    · rw [seenBefore_tail (he d hd)]
      exact hbefore d hd hlt

/-- The scan stops at the first announcement with a fault, and names the first fault of it. -/
theorem firstFault?_eq_some_iff (hs : es.Pairwise fun d e => d.1 < e.1) :
    firstFault? seen es = some (party, fault) ↔ FirstFaultIn {x | x ∈ seen} es party fault := by
  induction es generalizing seen with
  | nil => simp [firstFault?, FirstFaultIn]
  | cons e es ih =>
    obtain ⟨he, hes⟩ := List.pairwise_cons.mp hs
    rw [firstFault?]
    cases hf : e.2.fault? seen with
    | some found =>
      rw [firstFaultIn_of_head he (Announcement.fault?_eq_some_iff.mp hf)]
      simp only [Option.some.injEq, Prod.mk.injEq]
    | none =>
      rw [firstFaultIn_of_tail he (Announcement.fault?_eq_none_iff.mp hf)]
      exact ih hes

end Scan

end DlogProof
