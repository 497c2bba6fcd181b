import DlogProof.Uint.Basic

-- A power of naturals is the core library's one, also where a monoid's is in scope.
attribute [local instance (2000)] instPowNat

namespace DlogProof

/-- Why a byte string is not the encoding of an integer. -/
inductive EncodingError where
  | wrongLength (actual expected : Nat)
  | tooLarge (significant capacity : Nat)
deriving DecidableEq

def EncodingError.message : EncodingError → String
  | wrongLength actual expected => s!"Invalid slice length: {actual}, expected {expected}"
  | tooLarge significant capacity =>
    s!"The value takes {significant} bytes, but at most {capacity} fit"

namespace Uint

variable {limbs : Nat}

theorem pow_byteWidth (limbs : Nat) : 256 ^ byteWidth limbs = 2 ^ (64 * limbs) := by
  rw [byteWidth, show (256 : Nat) = 2 ^ 8 from rfl, ← Nat.pow_mul, ← Nat.mul_assoc]

/-- The lowest `n` limbs of an integer as bytes, most significant limb first. -/
def limbBytes (a : Uint limbs) : Nat → List UInt8
  | 0 => []
  | n + 1 => beBytes 8 (a.limb n).toNat ++ a.limbBytes n

/-- The full-width encoding: every limb, with leading zeros. -/
def toBytes (a : Uint limbs) : List UInt8 := a.limbBytes limbs

/-- The encoding without leading zero bytes, empty for zero. -/
def toMinimalBytes (a : Uint limbs) : List UInt8 := significantBytes a.toBytes

theorem limbBytes_eq (a : Uint limbs) (n : Nat) : a.limbBytes n = beBytes (8 * n) a.val := by
  induction n with
  | zero => rfl
  | succ n ih =>
    rw [limbBytes, ih, limb, UInt64.toNat_ofNat', show 2 ^ 64 = 256 ^ 8 from rfl, beBytes_mod,
      Nat.mul_succ, Nat.add_comm (8 * n) 8, beBytes_append, ← shiftRight_bytes, ← Nat.mul_assoc]

theorem toBytes_eq (a : Uint limbs) : a.toBytes = beBytes (byteWidth limbs) a.val :=
  a.limbBytes_eq limbs

@[simp] theorem toBytes_length (a : Uint limbs) : a.toBytes.length = byteWidth limbs := by
  rw [toBytes_eq, beBytes_length]

@[simp] theorem beValue_toBytes (a : Uint limbs) : beValue a.toBytes = a.val := by
  rw [toBytes_eq, beValue_beBytes, pow_byteWidth, Nat.mod_eq_of_lt a.val_lt]

/-- The value of a byte string no longer than the full width. -/
def ofShortBytes (bytes : List UInt8) (h : bytes.length ≤ byteWidth limbs) : Uint limbs :=
  ⟨beValue bytes, Nat.lt_of_lt_of_le (beValue_lt bytes)
    (pow_byteWidth limbs ▸ Nat.pow_le_pow_right (by decide) h)⟩

/-- Reads an encoding of exactly the full width. -/
def ofFullBytes (bytes : List UInt8) : Except EncodingError (Uint limbs) :=
  if h : bytes.length = byteWidth limbs then .ok (ofShortBytes bytes (Nat.le_of_eq h))
  else .error (.wrongLength bytes.length (byteWidth limbs))

theorem ofFullBytes_toBytes (a : Uint limbs) : ofFullBytes a.toBytes = .ok a := by
  rw [ofFullBytes, dif_pos a.toBytes_length]
  congr 1
  exact ext_val a.beValue_toBytes

/-- Reads a byte string of any length whose value, leading zeros aside, fits. -/
def ofBytes (bytes : List UInt8) : Except EncodingError (Uint limbs) :=
  if h : (significantBytes bytes).length ≤ byteWidth limbs then
    .ok (ofShortBytes (significantBytes bytes) h)
  else .error (.tooLarge (significantBytes bytes).length (byteWidth limbs))

end Uint

end DlogProof
