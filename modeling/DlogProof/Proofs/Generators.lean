import DlogProof.Proofs.Blame
import Mathlib.Data.List.Nodup
import Mathlib.Data.List.Perm.Basic

namespace DlogProof

open List

variable {P : Params}

/-- The generators of all parties of a list. -/
def generatorsOf (entries : List (PartyIdx × Announcement P)) : List P.Integer :=
  entries.flatMap fun e => [e.2.h1, e.2.h2]

theorem generatorsOf_cons (e : PartyIdx × Announcement P)
    (es : List (PartyIdx × Announcement P)) :
    generatorsOf (e :: es) = e.2.h1 :: e.2.h2 :: generatorsOf es := rfl

/-- The scan moves the generators of a party from those to come to those seen. -/
theorem generatorsOf_append_perm (e : PartyIdx × Announcement P)
    (es : List (PartyIdx × Announcement P)) (seen : List P.Integer) :
    generatorsOf (e :: es) ++ seen ~ generatorsOf es ++ e.2.h2 :: e.2.h1 :: seen := by
  rw [generatorsOf_cons]
  calc e.2.h1 :: e.2.h2 :: generatorsOf es ++ seen
      ~ e.2.h2 :: e.2.h1 :: (generatorsOf es ++ seen) := Perm.swap _ _ _
    _ ~ e.2.h2 :: (generatorsOf es ++ e.2.h1 :: seen) := perm_middle.symm.cons _
    _ ~ generatorsOf es ++ e.2.h2 :: e.2.h1 :: seen := perm_middle.symm

/-- The scan passes exactly if the sizes are right and no generator occurs twice, whatever the order
of the parties. -/
theorem firstFault?_eq_none_iff_nodup {seen : List P.Integer} (hseen : seen.Nodup)
    {es : List (PartyIdx × Announcement P)} :
    firstFault? seen es = none ↔
      (∀ e ∈ es, e.2.Sized) ∧ (generatorsOf es ++ seen).Nodup := by
  induction es generalizing seen with
  | nil => simp [firstFault?, generatorsOf, hseen]
  | cons e es ih =>
    rw [firstFault?, forall_mem_cons, (generatorsOf_append_perm e es seen).nodup_iff]
    have hhead : e.2.fault? seen = none ↔
        e.2.Sized ∧ (e.2.h2 :: e.2.h1 :: seen).Nodup := by
      rw [Announcement.fault?_eq_none_iff, Announcement.wellFormed_iff, nodup_cons, nodup_cons,
        mem_cons, not_or, and_iff_left hseen, and_assoc, and_comm (a := e.2.h2 ∉ seen)]
      exact and_congr_right fun _ => and_congr_left fun _ => ne_comm
    cases hf : e.2.fault? seen with
    | none =>
      obtain ⟨hsized, hnew⟩ := hhead.mp hf
      dsimp only
      rw [ih hnew, and_iff_right hsized]
    | some fault =>
      have hno : ¬ (e.2.Sized ∧ (e.2.h2 :: e.2.h1 :: seen).Nodup) := by
        rw [← hhead, hf]
        simp
      simp only [reduceCtorEq, false_iff]
      rintro ⟨⟨hsized, -⟩, hnodup⟩
      exact hno ⟨hsized, (sublist_append_right _ _).nodup hnodup⟩

/-- The entry of a party, put in front of all others, gives back the map. -/
theorem PartyMap.entries_perm_cons_erase {α : Type} {m : PartyMap α} {i : PartyIdx} {a : α}
    (h : m.get? i = some a) : m.entries ~ (i, a) :: (m.erase i).entries := by
  have hne : ∀ {l : List (PartyIdx × α)}, (l.Pairwise fun d e => d.1 < e.1) → l.Nodup :=
    fun hs => hs.imp fun hlt he => PartyIdx.ne_of_lt hlt (congrArg Prod.fst he)
  -- Without repetitions, lists with the same members are permutations of each other.
  have hnew : (i, a) ∉ (m.erase i).entries := fun hm => (mem_erase.mp hm).1 rfl
  have hcons := nodup_cons.mpr ⟨hnew, hne (m.erase i).sorted⟩
  refine (perm_ext_iff_of_nodup (hne m.sorted) hcons).mpr ?_
  rintro ⟨j, b⟩
  rw [mem_cons, mem_erase, ← get?_eq_some_iff]
  by_cases hj : j = i
  · subst hj
    simp [h, eq_comm]
  · simp [hj]

namespace FirstRound

variable {r : FirstRound P} {announcements : PartyMap (Announcement P)}

/-- No announcement has a fault of form exactly if the sizes are right and all generators differ,
the local ones included. -/
theorem allWellFormed_iff_nodup (hne : r.params.h1 ≠ r.params.h2) :
    r.AllWellFormed announcements ↔
      (∀ party a, r.IsPeer announcements party a → a.Sized) ∧
        (generatorsOf (r.peers announcements).entries ++ [r.params.h1, r.params.h2]).Nodup := by
  rw [← scan_eq_none_iff, firstFault?_eq_none_iff_nodup (by simpa using hne),
    forall_mem_peers_iff]

end FirstRound

end DlogProof
