import IlSplice.Fault

/-!
Byte strings and the little-endian numbers in them.

`leBytes` writes a number in a given number of bytes and `leValue` reads it back; `Bytes.uintAt`
reads a number in place. `Bytes.slice` and `Bytes.overwrite` work on a part of a byte string and
fail where that part does not exist.
-/

namespace IlSplice

/-- The contents of a file or of a part of it. -/
abbrev Bytes := Array UInt8

/-- The lowest `width` bytes of `n`, lowest first. -/
def leBytes : Nat → Nat → List UInt8
  | 0, _ => []
  | width + 1, n => UInt8.ofNat n :: leBytes width (n / 256)

/-- The number whose bytes are given, lowest first. -/
def leValue : List UInt8 → Nat
  | [] => 0
  | b :: rest => b.toNat + 256 * leValue rest

@[simp] theorem length_leBytes (width n : Nat) : (leBytes width n).length = width := by
  induction width generalizing n with
  | zero => rfl
  | succ width ih => simp [leBytes, ih]

/-- How many numbers have `width` bytes. -/
def byteRange : Nat → Nat
  | 0 => 1
  | width + 1 => 256 * byteRange width

theorem leValue_leBytes (width n : Nat) : leValue (leBytes width n) = n % byteRange width := by
  induction width generalizing n with
  | zero => simp [leBytes, leValue, byteRange, Nat.mod_one]
  | succ width ih =>
    rw [leBytes, leValue, ih, UInt8.toNat_ofNat', byteRange, Nat.mod_mul]

/-- The number `n` of `width` bytes, read as two's complement. -/
def signedValue (width n : Nat) : Int := Int.bmod n (byteRange width)

/-- The lowest `width` bytes of the two's complement of `n`, lowest first. -/
def leSigned (width : Nat) (n : Int) : List UInt8 := leBytes width (n % byteRange width).toNat

/-- The least multiple of `alignment` that is not below `n`. -/
def alignUp (n alignment : Nat) : Nat := (n + alignment - 1) / alignment * alignment

theorem le_alignUp (n : Nat) {alignment : Nat} (h : 0 < alignment) : n ≤ alignUp n alignment := by
  have := Nat.div_add_mod (n + alignment - 1) alignment
  have := Nat.mod_lt (n + alignment - 1) h
  unfold alignUp
  rw [Nat.mul_comm]
  omega

/-- This holds for no alignment at all, too: then the result is zero. -/
theorem dvd_alignUp (n alignment : Nat) : alignment ∣ alignUp n alignment :=
  Nat.dvd_mul_left _ _

/-- What is aligned already stays where it is, so that aligning twice is aligning once. -/
theorem alignUp_of_dvd {n alignment : Nat} (h : 0 < alignment) (hDvd : alignment ∣ n) :
    alignUp n alignment = n := by
  obtain ⟨k, rfl⟩ := hDvd
  rw [alignUp, Nat.add_sub_assoc h, Nat.mul_add_div h,
    Nat.div_eq_of_lt (Nat.sub_lt h Nat.one_pos), Nat.add_zero, Nat.mul_comm]

/-- A power of two, the only alignments that headers may name. -/
def isPowerOfTwo (n : Nat) : Bool := n ≠ 0 && n &&& (n - 1) == 0

namespace Bytes

/-- The number in the `width` bytes at `offset`; bytes beyond the end count as zero. -/
def uintAt (data : Bytes) (offset : Nat) : Nat → Nat
  | 0 => 0
  | width + 1 => (data[offset]?.getD 0).toNat + 256 * uintAt data (offset + 1) width

/-- The bytes from `start` up to `stop`. -/
def slice (data : Bytes) (start stop : Nat) : Except Fault Bytes :=
  if start ≤ stop ∧ stop ≤ data.size then .ok (data.extract start stop) else .error .outOfBounds

/-- The data with the bytes at `offset` replaced; all of `new` has to fit. -/
def overwrite (data : Bytes) (offset : Nat) (new : List UInt8) : Except Fault Bytes :=
  if offset + new.length ≤ data.size then .ok (write data offset new) else .error .outOfBounds
where
  /-- Replaces the bytes one by one. -/
  write (data : Bytes) (offset : Nat) : List UInt8 → Bytes
    | [] => data
    | b :: rest => write (data.setIfInBounds offset b) (offset + 1) rest

/-- The data with zeros behind it, up to the next multiple of `alignment`. -/
def padTo (data : Bytes) (alignment : Nat) : Bytes :=
  data ++ Array.replicate (alignUp data.size alignment - data.size) 0

/-- The data cut off, or filled up with zeros, to `size` bytes. -/
def resize (data : Bytes) (size : Nat) : Bytes :=
  data.extract 0 size ++ Array.replicate (size - data.size) 0

/-- Valid UTF-8 as text. -/
def utf8? (data : Bytes) : Option String := String.fromUTF8? ⟨data⟩

/-- The UTF-8 form of a text. -/
def ofUtf8 (text : String) : Bytes := text.toUTF8.data

/-- The text whose characters have the bytes as their codes. -/
def latin1 (bs : List UInt8) : String := String.ofList (bs.map fun b => Char.ofNat b.toNat)

@[simp] theorem size_write (data : Bytes) (offset : Nat) (new : List UInt8) :
    (overwrite.write data offset new).size = data.size := by
  induction new generalizing data offset with
  | nil => rfl
  | cons b rest ih => simp [overwrite.write, ih]

end Bytes

end IlSplice
