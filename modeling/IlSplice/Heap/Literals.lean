import IlSplice.Bytes.Compressed
import IlSplice.Text.Units

/-!
The heap of string literals.

An entry is a compressed length, UTF-16 code units and one more byte; the length counts all that
follows it. Literals are found by the offset of their entry.
-/

namespace IlSplice

/-- A heap that starts with the empty entry. -/
structure Literals where
  data : Bytes

namespace Literals

/-- The name of the heap's stream. -/
def streamName : String := "#US"

/-- The heap with the given contents. -/
def ofBytes (data : Bytes) : Except Fault Literals :=
  if data[0]? = some 0 then .ok ⟨data⟩ else .error .literalsUnstarted

/-- The first `count` code units at an offset. -/
def unitsAt (data : Bytes) (offset count : Nat) : List UInt16 :=
  (List.range count).map fun i => UInt16.ofNat (data.uintAt (offset + 2 * i) 2)

/-- Reads an entry and yields its code units. -/
def scanEntry : Scan (List UInt16) := do
  let length ← Compressed.scan
  let start ← Scan.position
  Scan.skip length
  return unitsAt (← read) start (length / 2)

/-- The code units of the literal at an offset. -/
def getUnits (h : Literals) (offset : Nat) : Except Fault (List UInt16) :=
  Scan.evalAt (do Scan.seek offset; scanEntry) h.data 0

/-- The text of the literal at an offset. -/
def get (h : Literals) (offset : Nat) : Except Fault String :=
  return Text.ofUnits (← h.getUnits offset)

/-- Even an empty entry takes a byte, which is why reading all entries comes to an end. -/
theorem lt_of_scanEntry {data : Bytes} {start stop : Nat} {units : List UInt16}
    (h : scanEntry data start = .ok units stop) : start < stop := by
  obtain ⟨length, middle, h₁, h₂⟩ := Scan.bind_eq_ok h
  have := Compressed.lt_of_scan h₁
  obtain ⟨_, _, h₃, h₄⟩ := Scan.bind_eq_ok h₂
  cases h₃
  obtain ⟨_, _, h₅, h₆⟩ := Scan.bind_eq_ok h₄
  have := (Scan.forward_skip length).le h₅
  cases h₆
  omega

/-- The entries from an offset on that are to be kept, with their offsets, behind those already
found. Where an entry cannot be read, also tells why. -/
def entriesFrom (data : Bytes) (keep : List UInt16 → Bool) (offset : Nat)
    (found : Array (Nat × List UInt16)) : Array (Nat × List UInt16) × Option Fault :=
  if offset < data.size then
    match h : scanEntry data offset with
    | .ok units stop =>
      have := lt_of_scanEntry h
      entriesFrom data keep stop (if keep units then found.push (offset, units) else found)
    | .error fault _ => (found, some fault)
  else (found, none)
termination_by data.size - offset

/-- All entries behind the first one. -/
def entries (h : Literals) : Array (Nat × List UInt16) × Option Fault :=
  entriesFrom h.data (fun _ => true) 1 #[]

/-- The entries that hold a text. Filling is all that the others are good for. -/
def texts (h : Literals) : Array (Nat × List UInt16) × Option Fault :=
  entriesFrom h.data (fun units => !units.isEmpty) 1 #[]

end Literals

end IlSplice
