import DlogProof.Binary.Forms
import Mathlib.Algebra.Group.Nat.Defs
import Mathlib.Tactic.SplitIfs

namespace DlogProof

variable {limbs : Nat} {P : Params}

/-- Whether the lengths in a wire fit into 64 bits, as those of byte strings in memory do. -/
structure WireProof.Addressable (w : WireProof) : Prop where
  count : w.parts.length < 2 ^ 64
  parts : ∀ part ∈ w.parts, part.length < 2 ^ 64

/-- Whether the lengths in an announcement fit into 64 bits. -/
structure Announcement.Addressable (a : Announcement P) : Prop where
  width : Uint.byteWidth P.limbs < 2 ^ 64
  wire : ∀ slot, (a.wire slot).Addressable

namespace Binary

variable {α β : Type} {bytes : List UInt8}

/-- Whether a reader takes exactly the given bytes, whatever follows them, and gives the value. -/
def Reads (read : Reader α) (bytes : List UInt8) (a : α) : Prop :=
  ∀ rest, read (bytes ++ rest) = .ok (a, rest)

/-- What comes after a reader is given its value and the bytes that it left. -/
theorem Reads.bind_eq {read : Reader α} {a : α} (h : Reads read bytes a) (rest : List UInt8)
    (next : α × List UInt8 → Except Error β) :
    (read (bytes ++ rest) >>= next) = next (a, rest) := by
  rw [h]
  rfl

theorem reads_take (bytes : List UInt8) : Reads (take bytes.length) bytes bytes := by
  intro rest
  simp [take]

theorem reads_readFixed {n v : Nat} (h : v < 256 ^ n) : Reads (readFixed n) (leBytes n v) v := by
  intro rest
  have htake := reads_take (leBytes n v) rest
  rw [leBytes_length] at htake
  rw [readFixed, htake]
  simp only [Except.map, leValue_leBytes, Nat.mod_eq_of_lt h]

/-- Each of the four forms of an integer is read as the integer. -/
theorem reads_readVarint {n : Nat} (h : n < 2 ^ 64) : Reads (readVarint 8) (writeVarint n) n := by
  intro rest
  unfold writeVarint
  split_ifs with h8 h16 h32
  · have hb : (UInt8.ofNat n).toNat = n := by
      rw [UInt8.toNat_ofNat']
      omega
    -- Below 251 the byte is no marker.
    have hlt : UInt8.ofNat n < 251 := by
      rw [UInt8.lt_iff_toNat_lt, hb]
      exact h8
    simp only [List.cons_append, List.nil_append, readVarint, if_pos hlt, hb]
  · exact reads_readFixed (n := 2) h16 rest
  · exact reads_readFixed (n := 4) h32 rest
  · exact reads_readFixed (n := 8) h rest

theorem reads_readBytes (h : bytes.length < 2 ^ 64) : Reads readBytes (writeBytes bytes) bytes := by
  intro rest
  rw [readBytes, writeBytes, List.append_assoc, (reads_readVarint h).bind_eq]
  exact reads_take bytes rest

theorem reads_readUint (hw : Uint.byteWidth limbs < 2 ^ 64) (a : Uint limbs) :
    Reads readUint (writeUint a) a := by
  intro rest
  have hbytes : a.toBytes.length < 2 ^ 64 := by rwa [Uint.toBytes_length]
  rw [readUint, writeUint, (reads_readBytes hbytes).bind_eq]
  simp only [Uint.ofFullBytes_toBytes]
  rfl

theorem reads_readMany {parts : List (List UInt8)} (h : ∀ part ∈ parts, part.length < 2 ^ 64) :
    Reads (readMany parts.length) (parts.flatMap writeBytes) parts := by
  induction parts with
  | nil =>
    intro rest
    rfl
  | cons part parts ih =>
    intro rest
    rw [List.forall_mem_cons] at h
    simp only [List.length_cons, readMany, List.flatMap_cons, List.append_assoc,
      (reads_readBytes h.1).bind_eq, (ih h.2).bind_eq]
    rfl

theorem reads_readWire {w : WireProof} (h : w.Addressable) : Reads readWire (writeWire w) w := by
  intro rest
  simp only [readWire, writeWire, List.append_assoc, (reads_readVarint h.count).bind_eq,
    (reads_readMany h.parts).bind_eq]
  rfl

/-- An announcement is read from what was written for it, up to the last byte and no further. -/
theorem reads_readAnnouncement {a : Announcement P} (h : a.Addressable) :
    Reads readAnnouncement (writeAnnouncement a) a := by
  intro rest
  have huint : ∀ x : P.Integer, Reads readUint (writeUint x) x := reads_readUint h.width
  have hfirst : Reads readWire (writeWire a.firstProof) a.firstProof :=
    reads_readWire (h.wire .first)
  have hsecond : Reads readWire (writeWire a.secondProof) a.secondProof :=
    reads_readWire (h.wire .second)
  simp only [readAnnouncement, writeAnnouncement, List.append_assoc, (huint _).bind_eq,
    hfirst.bind_eq, hsecond.bind_eq]
  rfl

end Binary

end DlogProof
