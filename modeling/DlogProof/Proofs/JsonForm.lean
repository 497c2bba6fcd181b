import DlogProof.Json.Forms
import Mathlib.Data.List.Nodup

namespace DlogProof

variable {limbs : Nat} {P : Params}

namespace Text

/-- The ASCII byte of a hexadecimal digit. -/
def hexByte (n : Nat) : UInt8 := UInt8.ofNat (if n < 10 then 48 + n else 87 + n)

-- Digits are ASCII characters, so that each is one byte in UTF-8.
theorem utf8EncodeChar_hexDigit : ∀ n < 16, String.utf8EncodeChar (hexDigit n) = [hexByte n] := by
  decide

theorem hexValue?_hexByte : ∀ n < 16, hexValue? (hexByte n) = some n := by
  decide

theorem utf8Bytes_hexDigits (bytes : List UInt8) :
    utf8Bytes (hexDigits bytes) =
      bytes.flatMap fun b => [hexByte (b.toNat / 16), hexByte (b.toNat % 16)] := by
  rw [utf8Bytes, hexDigits, List.flatMap_assoc]
  apply List.flatMap_congr
  intro b _
  have hb : b.toNat < 256 := b.toNat_lt
  simp [utf8EncodeChar_hexDigit _ (by omega : b.toNat / 16 < 16),
    utf8EncodeChar_hexDigit _ (by omega : b.toNat % 16 < 16)]

theorem bytesOfPairs_hexBytes (i : Nat) (bytes : List UInt8) :
    bytesOfPairs i (bytes.flatMap fun b => [hexByte (b.toNat / 16), hexByte (b.toNat % 16)]) =
      .ok bytes := by
  induction bytes generalizing i with
  | nil => rfl
  | cons b bytes ih =>
    have hb : b.toNat < 256 := b.toNat_lt
    have hval : UInt8.ofNat (16 * (b.toNat / 16) + b.toNat % 16) = b := by
      rw [Nat.div_add_mod, UInt8.ofNat_toNat]
    simp only [List.flatMap_cons, List.cons_append, List.nil_append, bytesOfPairs,
      hexValue?_hexByte _ (by omega : b.toNat / 16 < 16),
      hexValue?_hexByte _ (by omega : b.toNat % 16 < 16), ih, Except.map, hval]

/-- Two digits for every byte are read as the bytes. -/
theorem bytesOfHex_hexDigits (bytes : List UInt8) :
    bytesOfHex (utf8Bytes (hexDigits bytes)) = .ok bytes := by
  have heven : (bytes.flatMap fun b =>
      [hexByte (b.toNat / 16), hexByte (b.toNat % 16)]).length % 2 = 0 := by
    simp
  rw [bytesOfHex, utf8Bytes_hexDigits, if_neg (by omega), bytesOfPairs_hexBytes]

end Text

namespace Json

theorem readBytes_writeBytes (bytes : List UInt8) : readBytes (writeBytes bytes) = .ok bytes := by
  simp only [readBytes, writeBytes, String.toList_ofList, Text.bytesOfHex_hexDigits,
    Except.mapError]

theorem readUint_writeUint (a : Uint limbs) : readUint (writeUint a) = .ok a := by
  rw [readUint, writeUint, readBytes_writeBytes]
  simp only [bind, Except.bind, Uint.ofFullBytes_toBytes, Except.mapError]

theorem readAll_map {α : Type} {read : Value → Except FormError α} {write : α → Value}
    (h : ∀ a, read (write a) = .ok a) (as : List α) : readAll read (as.map write) = .ok as := by
  induction as with
  | nil => rfl
  | cons a as ih =>
    rw [List.map_cons, readAll, h, ih]
    rfl

theorem readWire_writeWire (w : WireProof) : readWire (writeWire w) = .ok w := by
  simp only [readWire, writeWire, readAll_map readBytes_writeBytes, Except.map]

/-- Among fields of distinct names, each is found under its name. -/
theorem lookup_of_mem {fields : List (String × Value)} (hnames : (fields.map Prod.fst).Nodup)
    {name : String} {v : Value} (h : (name, v) ∈ fields) : fields.lookup name = some v := by
  induction fields with
  | nil => cases h
  | cons f fields ih =>
    rw [List.map_cons, List.nodup_cons] at hnames
    rcases List.mem_cons.mp h with rfl | h
    · exact List.lookup_cons_self
    · have hne : (name == f.1) = false := by
        rw [beq_eq_false_iff_ne]
        rintro rfl
        exact hnames.1 (List.mem_map.mpr ⟨(f.1, v), h, rfl⟩)
      rw [List.lookup_cons, hne]
      exact ih hnames.2 h

/-- The fields of the object that is written for an announcement. -/
def announcementFields (a : Announcement P) : List (String × Value) :=
  [("dln_proof_1", writeWire a.firstProof),
    ("dln_proof_2", writeWire a.secondProof),
    ("h1", writeUint a.h1),
    ("h2", writeUint a.h2),
    ("ntilde", writeUint a.modulus),
    ("paillier_modulus", writeUint a.paillierModulus)]

theorem fieldFault?_announcementFields (a : Announcement P) :
    ∀ f ∈ announcementFields a, fieldFault? P f.1 f.2 = none := by
  have huint : ∀ x : P.Integer, (readUint (writeUint x) : Except FormError P.Integer) = .ok x :=
    readUint_writeUint
  simp [announcementFields, fieldFault?, huint, readWire_writeWire]

theorem announcementFields_names (a : Announcement P) :
    ((announcementFields a).map Prod.fst).Nodup := by
  simp only [announcementFields, List.map_cons, List.map_nil]
  decide

theorem readField_of_mem {α : Type} {read : Value → Except FormError α}
    {fields : List (String × Value)} (hnames : (fields.map Prod.fst).Nodup) {name : String}
    {v : Value} (h : (name, v) ∈ fields) : readField read fields name = read v := by
  rw [readField, lookup_of_mem hnames h]

/-- An announcement is read from its fields in whatever order they come. -/
theorem readAnnouncement_of_perm {a : Announcement P} {fields : List (String × Value)}
    (h : fields.Perm (announcementFields a)) : readAnnouncement (.object fields) = .ok a := by
  -- A fault in any field is looked for before the fields are read one by one.
  have hfault : (fields.findSome? fun f => fieldFault? P f.1 f.2) = none := by
    rw [List.findSome?_eq_none_iff]
    intro f hf
    exact fieldFault?_announcementFields a f (h.mem_iff.mp hf)
  have hnames := (h.map Prod.fst).nodup_iff.mpr (announcementFields_names a)
  have hmem : ∀ f ∈ announcementFields a, f ∈ fields := fun f hf => h.mem_iff.mpr hf
  simp only [announcementFields, List.forall_mem_cons] at hmem
  obtain ⟨hfirst, hsecond, h1, h2, hmodulus, hpaillier, -⟩ := hmem
  simp only [readAnnouncement, hfault, readField_of_mem hnames hpaillier,
    readField_of_mem hnames hmodulus, readField_of_mem hnames h1, readField_of_mem hnames h2,
    readField_of_mem hnames hfirst, readField_of_mem hnames hsecond, readUint_writeUint,
    readWire_writeWire]
  rfl

end Json

end DlogProof
