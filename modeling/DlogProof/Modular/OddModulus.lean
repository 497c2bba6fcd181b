import DlogProof.Modular.Power
import DlogProof.Modular.Inverse
import DlogProof.Uint.Basic

-- A power of naturals is the core library's one, also where a monoid's is in scope.
attribute [local instance (2000)] instPowNat

namespace DlogProof

/-- An odd modulus for arithmetic on residues. -/
structure OddModulus (limbs : Nat) where
  modulus : Uint limbs
  odd : modulus.val % 2 = 1

namespace OddModulus

variable {limbs : Nat}

/-- Zero and even numbers are refused. -/
def ofUint? (m : Uint limbs) : Option (OddModulus limbs) :=
  if h : m.val % 2 = 1 then some ⟨m, h⟩ else none

theorem pos (n : OddModulus limbs) : 0 < n.modulus.val := by
  have := n.odd
  omega

theorem ofUint?_eq_some_iff {m : Uint limbs} {n : OddModulus limbs} :
    ofUint? m = some n ↔ m = n.modulus := by
  constructor
  · intro h
    unfold ofUint? at h
    split at h
    · cases h
      rfl
    · cases h
  · rintro rfl
    simp only [ofUint?, dif_pos n.odd]

theorem ofUint?_eq_none_iff {m : Uint limbs} : ofUint? m = none ↔ m.val % 2 = 0 := by
  unfold ofUint?
  split <;> simp_all

/-- The residue of a natural number. -/
def residue (n : OddModulus limbs) (v : Nat) : Uint limbs := n.modulus.residue v n.pos

/-- Whether `0 < a < n`. -/
def isNonzeroResidue (n : OddModulus limbs) (a : Uint limbs) : Bool :=
  decide (0 < a.val) && decide (a.val < n.modulus.val)

theorem isNonzeroResidue_iff {n : OddModulus limbs} {a : Uint limbs} :
    n.isNonzeroResidue a = true ↔ 0 < a.val ∧ a.val < n.modulus.val := by
  simp [isNonzeroResidue]

def mul (n : OddModulus limbs) (a b : Uint limbs) : Uint limbs := n.residue (a.val * b.val)

/-- The power `b ^ e`, where only the lowest `bits` bits of `e` count. -/
def powBounded (n : OddModulus limbs) (b e : Uint limbs) (bits : Nat) : Uint limbs :=
  n.residue (powBits n.modulus.val bits b.val e.val)

/-- The power `b ^ e`. -/
def pow (n : OddModulus limbs) (b e : Uint limbs) : Uint limbs := n.powBounded b e e.bits

/-- The powers of `b`, prepared for many exponents of at most `bits` bits. -/
def powerTable (n : OddModulus limbs) (b : Uint limbs) (bits : Nat) : PowerTable :=
  PowerTable.ofBase n.modulus.val b.val bits

/-- The power that a table gives for the exponent `e`. -/
def raise (n : OddModulus limbs) (t : PowerTable) (e : Uint limbs) : Uint limbs :=
  n.residue (t.pow e.val)

@[simp] theorem residue_val (n : OddModulus limbs) (v : Nat) :
    (n.residue v).val = v % n.modulus.val := rfl

@[simp] theorem mul_val (n : OddModulus limbs) (a b : Uint limbs) :
    (n.mul a b).val = a.val * b.val % n.modulus.val := rfl

theorem powBounded_val (n : OddModulus limbs) (b e : Uint limbs) (bits : Nat) :
    (n.powBounded b e bits).val = b.val ^ (e.val % 2 ^ bits) % n.modulus.val := by
  rw [powBounded, residue_val, powBits_eq, Nat.mod_mod]

theorem powBounded_val_of_lt (n : OddModulus limbs) (b : Uint limbs) {e : Uint limbs} {bits : Nat}
    (h : e.val < 2 ^ bits) :
    (n.powBounded b e bits).val = b.val ^ e.val % n.modulus.val := by
  rw [powBounded_val, Nat.mod_eq_of_lt h]

theorem pow_val (n : OddModulus limbs) (b e : Uint limbs) :
    (n.pow b e).val = b.val ^ e.val % n.modulus.val :=
  n.powBounded_val_of_lt b (lt_two_pow_bitLength e.val)

/-- In the power from a table, the same bits of the exponent count as in the bounded power. -/
theorem raise_powerTable (n : OddModulus limbs) (b e : Uint limbs) (bits : Nat) :
    n.raise (n.powerTable b bits) e = n.powBounded b e bits := by
  apply Uint.ext_val
  rw [raise, residue_val, powerTable, PowerTable.pow_ofBase, Nat.mod_mod, powBounded_val]

/-- The inverse of `a`, if `a` is coprime to `n`. -/
def inverse? (n : OddModulus limbs) (a : Uint limbs) : Option (Uint limbs) :=
  (invMod? n.modulus.val a.val).map n.residue

end OddModulus

end DlogProof
