namespace DlogProof

/-- Euclid's algorithm on `r` and `s`, where `x` and `y` are the multiples
of one fixed number that `r` and `s` are congruent to. -/
def euclid : Nat → Nat → Nat → Int → Int → Nat × Int
  | 0, r, _, x, _ => (r, x)
  | fuel + 1, r, s, x, y =>
    if s = 0 then (r, x) else euclid fuel s (r % s) y (x - (r / s : Nat) * y)

/-- The inverse of `a` modulo `n`, if `a` is coprime to `n`. -/
def invMod? (n a : Nat) : Option Nat :=
  let (g, x) := euclid (a % n) n (a % n) 0 1
  if g = 1 then some (x % n).toNat else none

end DlogProof
