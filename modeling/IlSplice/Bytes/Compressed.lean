import IlSplice.Bytes.Scan
import IlSplice.Edit

/-!
Compressed unsigned numbers, the length prefixes of heap entries.

Numbers of up to 7, 14 and 29 bits take one, two and four bytes, highest byte first. The
top bits of the first byte tell the three forms apart.
-/

namespace IlSplice.Compressed

/-- The shortest form of `n`. -/
def encode (n : Nat) : Except Fault (List UInt8) :=
  if n < 0x80 then .ok [UInt8.ofNat n]
  else if n < 0x4000 then .ok [UInt8.ofNat (0x80 + n >>> 8), UInt8.ofNat n]
  else if n < 0x20000000 then
    .ok [UInt8.ofNat (0xC0 + n >>> 24), UInt8.ofNat (n >>> 16), UInt8.ofNat (n >>> 8),
      UInt8.ofNat n]
  else .error (.compressedTooLarge n)

/-- Puts the shortest form of a number behind the bytes. -/
def append (n : Nat) : Edit Bytes Unit := do
  let form ← Edit.check fun _ => encode n
  modify (· ++ form.toArray)

/-- Reads a number in any of the three forms. -/
def scan : Scan Nat := do
  let lead := (← Scan.u8).toNat
  if lead < 0x80 then
    return lead
  else if lead < 0xC0 then
    let low := (← Scan.u8).toNat
    return (lead - 0x80) * 0x100 + low
  else if lead < 0xE0 then
    let high := (← Scan.u8).toNat
    let middle := (← Scan.u8).toNat
    let low := (← Scan.u8).toNat
    return (lead - 0xC0) * 0x1000000 + high * 0x10000 + middle * 0x100 + low
  else
    throw (.compressedLead lead)

/-- Every form takes at least one byte. -/
theorem lt_of_scan {data : Bytes} {start value stop : Nat}
    (h : scan data start = .ok value stop) : start < stop := by
  obtain ⟨lead, middle, h₁, h₂⟩ := Scan.bind_eq_ok h
  obtain ⟨_, _, h₃, h₄⟩ := Scan.bind_eq_ok h₁
  have := (Scan.uint_eq_ok h₃).1
  cases h₄
  have byte : Scan.Forward Scan.u8 := Scan.forward_u8
  dsimp only at h₂
  split at h₂
  · cases h₂
    omega
  · split at h₂
    · have := (byte.bind fun _ => Scan.forward_pure _).le h₂
      omega
    · split at h₂
      · have := (byte.bind fun _ => byte.bind fun _ => byte.bind fun _ =>
          Scan.forward_pure _).le h₂
        omega
      · cases h₂

end IlSplice.Compressed
