import DlogProof.Modular.Power

-- A power of naturals is the core library's one, also where a monoid's is in scope.
attribute [local instance (2000)] instPowNat

namespace DlogProof

/-- The primes below 1000. -/
def smallPrimes : List Nat :=
  (List.range 1000).filter fun n =>
    decide (2 ≤ n) && (List.range n).all fun d => d < 2 || n % d != 0

/-- Halves `d` while it is even: the number of halvings and what is left. -/
def oddPart : Nat → Nat → Nat × Nat
  | 0, d => (0, d)
  | fuel + 1, d =>
    if d % 2 = 0 then let (k, r) := oddPart fuel (d / 2); (k + 1, r) else (0, d)

/-- Whether `n - 1` occurs among `x`, `x ^ 2`, `x ^ 4` and so on modulo `n`, `k` powers in all. -/
def squaresReach (n : Nat) : Nat → Nat → Bool
  | 0, _ => false
  | k + 1, x => x == n - 1 || squaresReach n k (x * x % n)

/-- Whether `n` passes the Miller–Rabin test to the base `b`. -/
def passesBase (n b : Nat) : Bool :=
  let (k, d) := oddPart (bitLength n) (n - 1)
  let x := powMod n b d
  b % n == 0 || x == 1 || squaresReach n k x

/-- The Jacobi symbol of `a` over the odd number `n`, by reciprocity. Each step but the first
halves the product of the two numbers. -/
def jacobiSymbol : Nat → Nat → Nat → Int
  | 0, _, _ => 0
  | fuel + 1, a, n =>
    if a = 0 then if n = 1 then 1 else 0
    else if a % 2 = 0 then
      let r := jacobiSymbol fuel (a / 2) n
      if n % 8 = 3 ∨ n % 8 = 5 then -r else r
    else
      let r := jacobiSymbol fuel (n % a) a
      if a % 4 = 3 ∧ n % 4 = 3 then -r else r

/-- The first `p` from the given one on for which `p ^ 2 - 4` is no square modulo a prime `n`. -/
def lucasParameter? (n : Nat) : Nat → Nat → Option Nat
  | 0, _ => none
  | count + 1, p =>
    let d := p ^ 2 - 4
    if jacobiSymbol (bitLength d + bitLength n + 2) d n = -1 then some p
    else lucasParameter? n count (p + 1)

/-- The terms `k` and `k + 1` modulo `n` of the sequence that begins with 2 and `p` and goes on with
`p` times the last term less the one before that, for an index `k` of as many bits as the count. -/
def lucasPair (n p : Int) : Nat → Nat → Int × Int
  | 0, _ => (2 % n, p % n)
  | bits + 1, k =>
    let (v, w) := lucasPair n p bits (k / 2)
    let middle := (v * w - p) % n
    if k % 2 = 0 then ((v * v - 2) % n, middle) else (middle, (w * w - 2) % n)

/-- Whether zero occurs among the terms of a Lucas sequence modulo `n` whose first is `v` and whose
index doubles each time, `k` terms in all. -/
def doublesReachZero (n : Int) : Nat → Int → Bool
  | 0, _ => false
  | k + 1, v => v == 0 || doublesReachZero n k ((v * v - 2) % n)

/-- Whether an odd number passes the extra strong Lucas test. Modulo a prime, the roots of
`x ^ 2 - p * x + 1` raised to `n + 1` give 1. So their powers to the odd part of `n + 1` are both 1
or both -1, or a square of a square and so on of them is -1 and the term before that is zero. -/
def passesLucas (n : Nat) : Bool :=
  match lucasParameter? n 200 3 with
  | none => false
  | some p =>
    let (k, d) := oddPart (bitLength (n + 1)) (n + 1)
    let (v, w) := lucasPair n p (bitLength d) d
    ((v == 2 || v == n - 2) && (2 * w - p * v) % n == 0) || doublesReachZero n (k - 1) v

/-- Whether an odd number is taken for a prime. No composite number is known to pass both tests. -/
def isProbablePrime (n : Nat) : Bool := passesBase n 2 && passesLucas n

end DlogProof
