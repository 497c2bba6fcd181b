namespace DlogProof.Shake

/-- The state of the permutation: lane `x + 5 * y` is the one at column `x` and row `y`. -/
abbrev Lanes := Vector UInt64 25

def rotateLeft (w : UInt64) (r : Nat) : UInt64 :=
  (w <<< UInt64.ofNat r) ||| (w >>> UInt64.ofNat (64 - r))

/-- How far each lane is rotated. -/
def rotations : Vector Nat 25 :=
  #v[0, 1, 62, 28, 27, 36, 44, 6, 55, 20, 3, 10, 43, 25, 39, 41, 45, 15, 21, 8, 18, 2, 61, 56, 14]

/-- What is added to the first lane in each round. -/
def roundConstants : List UInt64 :=
  [0x0000000000000001, 0x0000000000008082, 0x800000000000808a, 0x8000000080008000,
   0x000000000000808b, 0x0000000080000001, 0x8000000080008081, 0x8000000000008009,
   0x000000000000008a, 0x0000000000000088, 0x0000000080008009, 0x000000008000000a,
   0x000000008000808b, 0x800000000000008b, 0x8000000000008089, 0x8000000000008003,
   0x8000000000008002, 0x8000000000000080, 0x000000000000800a, 0x800000008000000a,
   0x8000000080008081, 0x8000000000008080, 0x0000000080000001, 0x8000000080008008]

/-- The parity of every column. -/
def columnParities (a : Lanes) : Vector UInt64 5 :=
  Vector.ofFn fun x =>
    a[x.val] ^^^ a[x.val + 5] ^^^ a[x.val + 10] ^^^ a[x.val + 15] ^^^ a[x.val + 20]

/-- Adds to every lane the parities of two neighbouring columns. -/
def mixColumns (a : Lanes) : Lanes :=
  let parities := columnParities a
  let added : Vector UInt64 5 := Vector.ofFn fun x =>
    parities[(x.val + 4) % 5] ^^^ rotateLeft parities[(x.val + 1) % 5] 1
  Vector.ofFn fun i => a[i.val] ^^^ added[i.val % 5]

/-- Rotates the lanes and moves each to its new place. -/
def moveLanes (a : Lanes) : Lanes :=
  Vector.ofFn fun i =>
    let j := (i.val % 5 + 3 * (i.val / 5)) % 5 + 5 * (i.val % 5)
    have hj : j < 25 := by omega
    rotateLeft a[j] rotations[j]

/-- Combines every lane with the next two of its row. -/
def mixRows (a : Lanes) : Lanes :=
  Vector.ofFn fun i =>
    let row := 5 * (i.val / 5)
    have h1 : row + (i.val + 1) % 5 < 25 := by omega
    have h2 : row + (i.val + 2) % 5 < 25 := by omega
    a[i.val] ^^^ (~~~ a[row + (i.val + 1) % 5] &&& a[row + (i.val + 2) % 5])

def round (a : Lanes) (constant : UInt64) : Lanes :=
  let b := mixRows (moveLanes (mixColumns a))
  b.set 0 (b[0] ^^^ constant)

/-- The permutation of 24 rounds. -/
def permute (a : Lanes) : Lanes := roundConstants.foldl round a

end DlogProof.Shake
