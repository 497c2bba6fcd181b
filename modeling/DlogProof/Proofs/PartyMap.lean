import DlogProof.Keygen.Party
import Mathlib.Data.List.Sort

namespace DlogProof

namespace PartyIdx

theorem lt_irrefl (i : PartyIdx) : ¬ i < i := UInt32.lt_irrefl i.val

theorem lt_asymm {i j : PartyIdx} (h : i < j) : ¬ j < i := fun h' => lt_irrefl i (lt_trans h h')

theorem ne_of_lt {i j : PartyIdx} (h : i < j) : i ≠ j := by
  rintro rfl
  exact lt_irrefl i h

theorem eq_of_not_lt {i j : PartyIdx} (h : ¬ i < j) (h' : ¬ j < i) : i = j := by
  by_contra hne
  exact h' (lt_of_not h hne)

end PartyIdx

namespace PartyMap

variable {α β : Type}

/-- Looking up a party finds its one entry, because the indices ascend. -/
theorem get?_eq_some_iff {m : PartyMap α} {i : PartyIdx} {a : α} :
    m.get? i = some a ↔ (i, a) ∈ m.entries := by
  obtain ⟨es, hs⟩ := m
  rw [get?]
  dsimp only
  induction es with
  | nil => simp
  | cons e es ih =>
    obtain ⟨he, hes⟩ := List.pairwise_cons.mp hs
    by_cases hi : e.1 = i
    · have hno : (i, a) ∉ es := fun h => PartyIdx.ne_of_lt (he _ h) hi
      rw [List.find?_cons_of_pos (by simpa using hi), Option.map_some, Option.some.injEq,
        List.mem_cons, or_iff_left hno]
      constructor
      · rintro rfl
        exact Prod.ext hi.symm rfl
      · rintro rfl
        rfl
    · have hne : (i, a) ≠ e := fun h => hi (congrArg Prod.fst h).symm
      rw [List.find?_cons_of_neg (by simpa using hi), ih hes, List.mem_cons, or_iff_right hne]

theorem mem_erase {m : PartyMap α} {i j : PartyIdx} {a : α} :
    (j, a) ∈ (m.erase i).entries ↔ j ≠ i ∧ m.get? j = some a := by
  rw [get?_eq_some_iff, erase, List.mem_filter, decide_eq_true_iff, and_comm]

theorem get?_map {m : PartyMap α} {f : α → β} {i : PartyIdx} :
    (m.map f).get? i = (m.get? i).map f := by
  simp only [get?, map, List.find?_map, Option.map_map]
  rfl

theorem ext_get? {m m' : PartyMap α} (h : ∀ i, m.get? i = m'.get? i) : m = m' := by
  have hmem : ∀ e, e ∈ m.entries ↔ e ∈ m'.entries := by
    rintro ⟨i, a⟩
    rw [← get?_eq_some_iff, ← get?_eq_some_iff, h i]
  have hanti : Std.Antisymm fun d e : PartyIdx × α => d.1 < e.1 :=
    ⟨fun _ _ hd he => absurd he (PartyIdx.lt_asymm hd)⟩
  have hirr : Std.Irrefl fun d e : PartyIdx × α => d.1 < e.1 := ⟨fun d => PartyIdx.lt_irrefl d.1⟩
  have he := m.sorted.eq_of_mem_iff m'.sorted hmem
  cases m
  cases m'
  simp_all

end PartyMap

end DlogProof
