namespace DlogProof

/-- The index of a party in a key generation session. -/
structure PartyIdx where
  val : UInt32
deriving DecidableEq

namespace PartyIdx

instance : LT PartyIdx := ⟨fun i j => i.val < j.val⟩

instance (i j : PartyIdx) : Decidable (i < j) := inferInstanceAs (Decidable (i.val < j.val))

theorem lt_trans {i j k : PartyIdx} (h : i < j) (h' : j < k) : i < k := UInt32.lt_trans h h'

theorem lt_of_not {i j : PartyIdx} (h : ¬ i < j) (hne : i ≠ j) : j < i := by
  have hv : i.val ≠ j.val := fun he => hne (by cases i; cases j; simp_all)
  exact (UInt32.lt_or_lt_of_ne hv).resolve_left h

/-- The index in decimal. -/
def text (i : PartyIdx) : String := toString i.val.toNat

end PartyIdx

/-- Puts an entry at its place among entries of ascending index, or replaces the one there. -/
def insertEntry {α : Type} (i : PartyIdx) (a : α) : List (PartyIdx × α) → List (PartyIdx × α)
  | [] => [(i, a)]
  | e :: es =>
    if i < e.1 then (i, a) :: e :: es
    else if i = e.1 then (i, a) :: es
    else e :: insertEntry i a es

theorem mem_insertEntry {α : Type} {i : PartyIdx} {a : α} {es : List (PartyIdx × α)}
    {e : PartyIdx × α} (h : e ∈ insertEntry i a es) : e = (i, a) ∨ e ∈ es := by
  induction es with
  | nil => exact .inl (by simpa [insertEntry] using h)
  | cons d es ih =>
    simp only [insertEntry] at h
    split at h
    · simpa using h
    · split at h
      · rcases List.mem_cons.mp h with h | h
        · exact .inl h
        · exact .inr (List.mem_cons_of_mem _ h)
      · rcases List.mem_cons.mp h with h | h
        · exact .inr (h ▸ List.mem_cons_self)
        · exact (ih h).imp id (List.mem_cons_of_mem _)

theorem insertEntry_sorted {α : Type} (i : PartyIdx) (a : α) {es : List (PartyIdx × α)}
    (h : es.Pairwise fun d e => d.1 < e.1) :
    (insertEntry i a es).Pairwise fun d e => d.1 < e.1 := by
  induction es with
  | nil => simp [insertEntry]
  | cons d es ih =>
    rw [List.pairwise_cons] at h
    simp only [insertEntry]
    split
    · rename_i hi
      refine List.pairwise_cons.mpr ⟨fun e he => ?_, List.pairwise_cons.mpr h⟩
      rcases List.mem_cons.mp he with rfl | he
      · exact hi
      · exact PartyIdx.lt_trans hi (h.1 e he)
    · split
      · rename_i hi
        exact List.pairwise_cons.mpr ⟨fun e he => hi ▸ h.1 e he, h.2⟩
      · rename_i hlt hne
        refine List.pairwise_cons.mpr ⟨fun e he => ?_, ih h.2⟩
        rcases mem_insertEntry he with rfl | he
        · exact PartyIdx.lt_of_not hlt hne
        · exact h.1 e he

/-- A map from parties, with its entries in ascending order of their indices. -/
structure PartyMap (α : Type) where
  entries : List (PartyIdx × α)
  sorted : entries.Pairwise fun d e => d.1 < e.1
deriving DecidableEq

namespace PartyMap

variable {α β : Type}

def empty : PartyMap α := ⟨[], .nil⟩

/-- Adds an entry, or replaces the one of the same party. -/
def insert (m : PartyMap α) (i : PartyIdx) (a : α) : PartyMap α :=
  ⟨insertEntry i a m.entries, insertEntry_sorted i a m.sorted⟩

def get? (m : PartyMap α) (i : PartyIdx) : Option α :=
  (m.entries.find? fun e => e.1 = i).map (·.2)

/-- The map without the entry of one party. -/
def erase (m : PartyMap α) (i : PartyIdx) : PartyMap α :=
  ⟨m.entries.filter fun e => e.1 ≠ i, m.sorted.filter _⟩

/-- The same parties with other values. -/
def map (f : α → β) (m : PartyMap α) : PartyMap β :=
  ⟨m.entries.map fun e => (e.1, f e.2), List.pairwise_map.mpr m.sorted⟩

end PartyMap

end DlogProof
