-- A power of naturals is the core library's one, also where a monoid's is in scope.
attribute [local instance (2000)] instPowNat

namespace DlogProof

/-- The number of bits needed to write `n`, zero for zero. -/
def bitLength (n : Nat) : Nat :=
  if n = 0 then 0 else n.log2 + 1

/-- The `n` bytes of `v` modulo `256 ^ n`, most significant first. -/
def beBytes : Nat → Nat → List UInt8
  | 0, _ => []
  | n + 1, v => UInt8.ofNat (v >>> (8 * n)) :: beBytes n v

/-- The value of a byte string read with the most significant byte first. -/
def beValue (bytes : List UInt8) : Nat :=
  bytes.foldl (fun acc b => 256 * acc + b.toNat) 0

/-- The `n` bytes of `v` modulo `256 ^ n`, least significant first. -/
def leBytes : Nat → Nat → List UInt8
  | 0, _ => []
  | n + 1, v => UInt8.ofNat v :: leBytes n (v >>> 8)

/-- The value of a byte string read with the least significant byte first. -/
def leValue : List UInt8 → Nat
  | [] => 0
  | b :: bytes => b.toNat + 256 * leValue bytes

/-- A byte string without its leading zero bytes. -/
def significantBytes (bytes : List UInt8) : List UInt8 :=
  bytes.dropWhile (· == 0)

/-- A byte string with zero bytes put in front of it until it has `width` bytes. -/
def padBytes (width : Nat) (bytes : List UInt8) : List UInt8 :=
  List.replicate (width - bytes.length) 0 ++ bytes

@[simp] theorem beBytes_length (n v : Nat) : (beBytes n v).length = n := by
  induction n with
  | zero => rfl
  | succ n ih => simp [beBytes, ih]

@[simp] theorem leBytes_length (n v : Nat) : (leBytes n v).length = n := by
  induction n generalizing v with
  | zero => rfl
  | succ n ih => simp [leBytes, ih]

theorem beValue_foldl (bytes : List UInt8) (acc : Nat) :
    bytes.foldl (fun acc b => 256 * acc + b.toNat) acc =
      256 ^ bytes.length * acc + beValue bytes := by
  induction bytes generalizing acc with
  | nil => simp [beValue]
  | cons b bytes ih =>
    have h : beValue (b :: bytes) = 256 ^ bytes.length * b.toNat + beValue bytes := by
      simpa [beValue] using ih b.toNat
    rw [List.foldl_cons, ih, h, List.length_cons, Nat.pow_succ, Nat.mul_add, Nat.mul_assoc]
    omega

theorem beValue_cons (b : UInt8) (bytes : List UInt8) :
    beValue (b :: bytes) = 256 ^ bytes.length * b.toNat + beValue bytes := by
  simpa [beValue] using beValue_foldl bytes b.toNat

theorem beValue_lt (bytes : List UInt8) : beValue bytes < 256 ^ bytes.length := by
  induction bytes with
  | nil => simp [beValue]
  | cons b bytes ih =>
    have hb : b.toNat < 256 := b.toNat_lt
    have hm : 256 ^ bytes.length * (b.toNat + 1) ≤ 256 ^ bytes.length * 256 :=
      Nat.mul_le_mul_left _ hb
    rw [beValue_cons, List.length_cons, Nat.pow_succ]
    rw [Nat.mul_add] at hm
    omega

theorem bitLength_le_iff {n k : Nat} : bitLength n ≤ k ↔ n < 2 ^ k := by
  unfold bitLength
  split
  · rename_i h
    have hk := Nat.two_pow_pos k
    omega
  · rename_i h
    exact Nat.log2_lt h

theorem lt_two_pow_bitLength (n : Nat) : n < 2 ^ bitLength n :=
  bitLength_le_iff.mp (Nat.le_refl _)

theorem shiftRight_bytes (v n : Nat) : v >>> (8 * n) = v / 256 ^ n := by
  rw [Nat.shiftRight_eq_div_pow, Nat.pow_mul]

theorem beValue_append (a b : List UInt8) :
    beValue (a ++ b) = 256 ^ b.length * beValue a + beValue b := by
  rw [beValue, List.foldl_append, beValue_foldl]
  rfl

theorem beValue_beBytes (n v : Nat) : beValue (beBytes n v) = v % 256 ^ n := by
  induction n with
  | zero => simp [beBytes, beValue, Nat.mod_one]
  | succ n ih =>
    rw [beBytes, beValue_cons, ih, beBytes_length, shiftRight_bytes, Nat.pow_succ, Nat.mod_mul,
      UInt8.toNat_ofNat', Nat.add_comm]

/-- Only the value modulo `256 ^ n` matters. -/
theorem beBytes_add_mul {n m : Nat} (h : n ≤ m) (a v : Nat) :
    beBytes n (256 ^ m * a + v) = beBytes n v := by
  induction n with
  | zero => rfl
  | succ n ih =>
    have hm : 256 ^ m = 256 ^ n * (256 * 256 ^ (m - (n + 1))) := by
      rw [← Nat.mul_assoc, ← Nat.pow_succ, ← Nat.pow_add, Nat.add_sub_cancel' h]
    rw [beBytes, beBytes, ih (by omega), shiftRight_bytes, shiftRight_bytes, hm, Nat.mul_assoc,
      Nat.mul_add_div (Nat.pow_pos (by decide)), Nat.mul_assoc]
    congr 1
    apply UInt8.toNat.inj
    rw [UInt8.toNat_ofNat', UInt8.toNat_ofNat']
    omega

theorem beBytes_mod (n v : Nat) : beBytes n (v % 256 ^ n) = beBytes n v := by
  have h := beBytes_add_mul (Nat.le_refl n) (v / 256 ^ n) (v % 256 ^ n)
  rwa [Nat.div_add_mod, eq_comm] at h

theorem beBytes_append (m n v : Nat) :
    beBytes (m + n) v = beBytes m (v / 256 ^ n) ++ beBytes n v := by
  induction m with
  | zero => rw [Nat.zero_add]; rfl
  | succ m ih =>
    rw [Nat.succ_add, beBytes, beBytes, ih, List.cons_append, shiftRight_bytes, shiftRight_bytes,
      Nat.div_div_eq_div_mul, ← Nat.pow_add, Nat.add_comm n m]

theorem beBytes_beValue (bytes : List UInt8) : beBytes bytes.length (beValue bytes) = bytes := by
  induction bytes with
  | nil => rfl
  | cons b bytes ih =>
    rw [List.length_cons, beValue_cons, beBytes, beBytes_add_mul (Nat.le_refl _), ih,
      shiftRight_bytes, Nat.mul_add_div (Nat.pow_pos (by decide)),
      Nat.div_eq_of_lt (beValue_lt bytes), Nat.add_zero, UInt8.ofNat_toNat]

/-- Byte strings of one length are told apart by their values. -/
theorem eq_of_beValue_eq {a b : List UInt8} (hl : a.length = b.length)
    (hv : beValue a = beValue b) : a = b := by
  rw [← beBytes_beValue a, hl, hv, beBytes_beValue]

theorem beValue_significantBytes (bytes : List UInt8) :
    beValue (significantBytes bytes) = beValue bytes := by
  induction bytes with
  | nil => rfl
  | cons b bytes ih =>
    rw [significantBytes, List.dropWhile_cons]
    split
    · rename_i hb
      rw [beValue_cons, show b = 0 by simpa using hb]
      simpa [significantBytes] using ih
    · rfl

theorem beValue_replicate_append (n : Nat) (bytes : List UInt8) :
    beValue (List.replicate n 0 ++ bytes) = beValue bytes := by
  induction n with
  | zero => rfl
  | succ n ih =>
    rw [List.replicate_succ, List.cons_append, beValue_cons, ih]
    simp

theorem beValue_padBytes (width : Nat) (bytes : List UInt8) :
    beValue (padBytes width bytes) = beValue bytes :=
  beValue_replicate_append _ bytes

theorem padBytes_length {width : Nat} {bytes : List UInt8} (h : bytes.length ≤ width) :
    (padBytes width bytes).length = width := by
  rw [padBytes, List.length_append, List.length_replicate]
  omega

theorem leValue_leBytes (n v : Nat) : leValue (leBytes n v) = v % 256 ^ n := by
  induction n generalizing v with
  | zero => simp [leBytes, leValue, Nat.mod_one]
  | succ n ih =>
    rw [leBytes, leValue, ih, Nat.pow_succ', Nat.mod_mul, UInt8.toNat_ofNat',
      Nat.shiftRight_eq_div_pow]

end DlogProof
