-- A power of naturals is the core library's one, also where a monoid's is in scope.
attribute [local instance (2000)] instPowNat

namespace DlogProof.Text

/-- A positive number `significand * 2 ^ exponent`. The numbers that round to it lie between its
neighbours' halves, and `narrow` says that the lower neighbour is at half the usual distance. -/
structure FloatValue where
  significand : Nat
  exponent : Int
  narrow : Bool

/-- The number of bits of its significand that a double stores. -/
def fractionBits : Nat := 52

/-- The number of bits of the exponent of a double. -/
def exponentBits : Nat := 11

/-- The exact value of a double without its sign bit. -/
def FloatValue.ofBits (bits : Nat) : FloatValue :=
  let e : Nat := bits / 2 ^ fractionBits % 2 ^ exponentBits
  let f := bits % 2 ^ fractionBits
  if e = 0 then ⟨f, -1074, false⟩
  else ⟨f + 2 ^ fractionBits, (e : Int) - 1075, f = 0 && 1 < e⟩

/-- The multiple of `10 ^ t` that is nearest to `x` among those that round to it, the even one of
two equally near. -/
def FloatValue.onGrid? (x : FloatValue) (t : Int) : Option Nat :=
  let s := x.exponent - 2
  let a := 2 ^ s.toNat * 10 ^ (-t).toNat
  let b := 2 ^ (-s).toNat * 10 ^ t.toNat
  let value := 4 * x.significand * a
  let high := value + 2 * a
  let low := value - if x.narrow then a else 2 * a
  let even := x.significand % 2 = 0
  let rounds := fun c : Nat =>
    decide (0 < c ∧ ((low < c * b ∧ c * b < high) ∨ (even ∧ low ≤ c * b ∧ c * b ≤ high)))
  let c := value / b
  let below := value - c * b
  let above := (c + 1) * b - value
  match rounds c, rounds (c + 1) with
  | true, true => some (if below < above ∨ (below = above ∧ c % 2 = 0) then c else c + 1)
  | true, false => some c
  | false, true => some (c + 1)
  | false, false => none

/-- The coarsest of the grids `10 ^ t`, `10 ^ (t - 1)` and so on with a point that rounds to `x`. -/
def FloatValue.shortest? (x : FloatValue) : Nat → Int → Option (Nat × Int)
  | 0, _ => none
  | count + 1, t =>
    match x.onGrid? t with
    | some c => some (c, t)
    | none => x.shortest? count (t - 1)

/-- The number `c * 10 ^ t` in positional notation, with at least one digit on either side of the
point. -/
def positional (c : Nat) (t : Int) : List Char :=
  let digits := Nat.toDigits 10 c ++ List.replicate t.toNat '0'
  let places := (-t).toNat
  let padded := List.replicate (places + 1 - digits.length) '0' ++ digits
  let whole := padded.take (padded.length - places)
  let fraction := padded.drop (padded.length - places)
  whole ++ '.' :: if fraction.isEmpty then ['0'] else fraction

/-- The number `c * 10 ^ t` with a point after its first digit, if others follow, and the power of
ten with its sign. -/
def scientific (c : Nat) (t : Int) : List Char :=
  let digits := Nat.toDigits 10 c
  let power := t + digits.length - 1
  let fraction := digits.drop 1
  digits.take 1 ++ (if fraction.isEmpty then [] else '.' :: fraction) ++
    'e' :: (if power < 0 then '-' else '+') :: Nat.toDigits 10 power.natAbs

/-- Numbers from `10 ^ -5` up to but not including `10 ^ 16` are positional, and so is zero. -/
def decimalText (c : Nat) (t : Int) : List Char :=
  let power := t + (Nat.toDigits 10 c).length - 1
  if -5 ≤ power ∧ power < 16 then positional c t else scientific c t

/-- The shortest decimal that reads back as a finite double. -/
def shortestDecimal (x : Float) : String :=
  let bits := x.toBits.toNat
  let sign := if bits / 2 ^ (fractionBits + exponentBits) = 1 then ['-'] else []
  let magnitude := bits % 2 ^ (fractionBits + exponentBits)
  let (c, t) :=
    if magnitude = 0 then (0, 0) else ((FloatValue.ofBits magnitude).shortest? 700 308).getD (0, 0)
  String.ofList (sign ++ decimalText c t)

end DlogProof.Text
