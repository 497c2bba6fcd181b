import DlogProof.BigEndian

-- A power of naturals is the core library's one, also where a monoid's is in scope.
attribute [local instance (2000)] instPowNat

namespace DlogProof

/-- An unsigned integer that fits into `limbs` limbs of 64 bits. -/
structure Uint (limbs : Nat) where
  val : Nat
  val_lt : val < 2 ^ (64 * limbs)
deriving DecidableEq

namespace Uint

variable {limbs : Nat}

/-- The number of bits that fit into the limbs. -/
def bitWidth (limbs : Nat) : Nat := 64 * limbs

/-- The number of bytes of the full-width encoding. -/
def byteWidth (limbs : Nat) : Nat := 8 * limbs

theorem ext_val {a b : Uint limbs} (h : a.val = b.val) : a = b := by
  cases a
  cases b
  simp_all

theorem val_inj {a b : Uint limbs} : a.val = b.val ↔ a = b := ⟨ext_val, fun h => h ▸ rfl⟩

/-- The integer of value `n`, if it fits. -/
def ofNat? (n : Nat) : Option (Uint limbs) :=
  if h : n < 2 ^ (64 * limbs) then some ⟨n, h⟩ else none

/-- The number of significant bits. -/
def bits (a : Uint limbs) : Nat := bitLength a.val

theorem bits_le_iff {a : Uint limbs} {k : Nat} : a.bits ≤ k ↔ a.val < 2 ^ k := bitLength_le_iff

theorem bits_le_bitWidth (a : Uint limbs) : a.bits ≤ bitWidth limbs := bits_le_iff.mpr a.val_lt

theorem ofNat?_eq_some_iff {n : Nat} {a : Uint limbs} : ofNat? n = some a ↔ a.val = n := by
  unfold ofNat?
  split
  · rename_i h
    simp only [Option.some.injEq]
    rw [← val_inj, eq_comm]
  · rename_i h
    have ha := a.val_lt
    simp only [reduceCtorEq, false_iff]
    omega

/-- The product, unless it overflows. -/
def checkedMul (a b : Uint limbs) : Option (Uint limbs) := ofNat? (a.val * b.val)

/-- The sum, unless it overflows. -/
def checkedAdd (a b : Uint limbs) : Option (Uint limbs) := ofNat? (a.val + b.val)

/-- The remainder of a division by a non-zero `m`. -/
def rem (a m : Uint limbs) : Uint limbs :=
  ⟨a.val % m.val, Nat.lt_of_le_of_lt (Nat.mod_le _ _) a.val_lt⟩

/-- Half of the value, rounded down. -/
def half (a : Uint limbs) : Uint limbs :=
  ⟨a.val / 2, Nat.lt_of_le_of_lt (Nat.div_le_self _ _) a.val_lt⟩

/-- The residue of `n` modulo a positive `m`. -/
def residue (m : Uint limbs) (n : Nat) (h : 0 < m.val) : Uint limbs :=
  ⟨n % m.val, Nat.lt_trans (Nat.mod_lt _ h) m.val_lt⟩

/-- The limb of significance `i`. -/
def limb (a : Uint limbs) (i : Nat) : UInt64 := UInt64.ofNat (a.val >>> (64 * i))

end Uint

end DlogProof
