import DlogProof.BigEndian

-- A power of naturals is the core library's one, also where a monoid's is in scope.
attribute [local instance (2000)] instPowNat

namespace DlogProof

/-- The power `b ^ e` modulo `n`, where only the lowest `k` bits of `e` count. -/
def powBits (n : Nat) : Nat → Nat → Nat → Nat
  | 0, _, _ => 1 % n
  | k + 1, b, e =>
    let r := powBits n k (b * b % n) (e / 2)
    if e % 2 = 1 then b * r % n else r

/-- The power `b ^ e` modulo `n`. -/
def powMod (n b e : Nat) : Nat := powBits n (bitLength e) b e

/-- The residues `x`, `x * b`, `x * b ^ 2` and so on, `count` of them. -/
def powerLadder (n b : Nat) : Nat → Nat → List Nat
  | 0, _ => []
  | count + 1, x => x :: powerLadder n b count (x * b % n)

/-- One row for each hexadecimal digit of an exponent, lowest digit first:
row `j` holds `b ^ (d * 16 ^ j)` for every digit `d`. -/
def powerRows (n : Nat) : Nat → Nat → List (List Nat)
  | 0, _ => []
  | k + 1, b => powerLadder n b 16 (1 % n) :: powerRows n k (b ^ (16 : Nat) % n)

/-- Multiplies `x` by the power that the digits of `e` select from the rows. -/
def selectPowers (n : Nat) : List (List Nat) → Nat → Nat → Nat
  | [], _, x => x
  | row :: rows, e, x => selectPowers n rows (e / 16) (x * row.getD (e % 16) 0 % n)

/-- The powers of one base, prepared for many exponents of at most `bits` bits. -/
structure PowerTable where
  modulus : Nat
  bits : Nat
  rows : List (List Nat)

namespace PowerTable

def ofBase (n b bits : Nat) : PowerTable :=
  ⟨n, bits, powerRows n ((bits + 3) / 4) b⟩

/-- The power of the base, where only the lowest `bits` bits of `e` count. -/
def pow (t : PowerTable) (e : Nat) : Nat :=
  selectPowers t.modulus t.rows (e % 2 ^ t.bits) (1 % t.modulus)

end PowerTable

theorem powBits_eq (n b e k : Nat) : powBits n k b e = b ^ (e % 2 ^ k) % n := by
  induction k generalizing b e with
  | zero => simp [powBits, Nat.mod_one]
  | succ k ih =>
    have he : e % 2 ^ (k + 1) = e % 2 + 2 * (e / 2 % 2 ^ k) := by rw [Nat.pow_succ', Nat.mod_mul]
    have hr : powBits n k (b * b % n) (e / 2) = b ^ (2 * (e / 2 % 2 ^ k)) % n := by
      rw [ih, ← Nat.pow_mod, Nat.pow_mul, Nat.pow_two]
    simp only [powBits, hr]
    rcases Nat.mod_two_eq_zero_or_one e with h | h
    · rw [if_neg (by omega), he, h, Nat.zero_add]
    · rw [if_pos h, he, h, Nat.pow_add, Nat.pow_one, Nat.mul_mod_mod]

theorem powerLadder_getD (n b count x : Nat) {i : Nat} (hi : i < count) (hx : x % n = x) :
    (powerLadder n b count x).getD i 0 = x * b ^ i % n := by
  induction count generalizing x i with
  | zero => omega
  | succ count ih =>
    cases i with
    | zero => simp [powerLadder, hx]
    | succ i =>
      rw [powerLadder, List.getD_cons_succ, ih _ (by omega) (Nat.mod_mod _ _), Nat.mod_mul_mod,
        Nat.mul_assoc, ← Nat.pow_succ']

theorem selectPowers_rows (n k b e x : Nat) (hx : x % n = x) :
    selectPowers n (powerRows n k b) e x = x * b ^ (e % 16 ^ k) % n := by
  induction k generalizing b e x with
  | zero => simp [powerRows, selectPowers, Nat.mod_one, hx]
  | succ k ih =>
    have he : e % 16 ^ (k + 1) = e % 16 + 16 * (e / 16 % 16 ^ k) := by
      rw [Nat.pow_succ', Nat.mod_mul]
    rw [powerRows, selectPowers, ih _ _ _ (Nat.mod_mod _ _),
      powerLadder_getD n b 16 (1 % n) (Nat.mod_lt e (by decide)) (Nat.mod_mod _ _), he, Nat.pow_add,
      Nat.pow_mul, ← Nat.mul_assoc, Nat.mul_mod, Nat.mod_mod, ← Nat.pow_mod, ← Nat.mul_mod]
    rw [Nat.mod_mul_mod, Nat.one_mul, ← Nat.mod_mul_mod (x * _), Nat.mul_mod_mod, Nat.mod_mul_mod]

theorem PowerTable.pow_ofBase (n b bits e : Nat) :
    (PowerTable.ofBase n b bits).pow e = b ^ (e % 2 ^ bits) % n := by
  have h : (e % 2 ^ bits) < 16 ^ ((bits + 3) / 4) := by
    refine Nat.lt_of_lt_of_le (Nat.mod_lt _ (Nat.two_pow_pos _)) ?_
    rw [show (16 : Nat) = 2 ^ 4 from rfl, ← Nat.pow_mul]
    exact Nat.pow_le_pow_right (by decide) (by omega)
  rw [PowerTable.pow, PowerTable.ofBase, selectPowers_rows _ _ _ _ _ (Nat.mod_mod _ _),
    Nat.mod_eq_of_lt h, Nat.mod_mul_mod, Nat.one_mul]

end DlogProof
