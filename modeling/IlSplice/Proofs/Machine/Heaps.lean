import IlSplice.Heap.Identifiers
import IlSplice.Proofs.Heap.Literals
import IlSplice.Proofs.Machine.Reading

/-! The heaps of names and of string literals, read in words at any offset. -/

namespace IlSplice

open Machine Reading

/-- Accepts a heap that starts with the empty entry. -/
def readHeap (s : Slice) (unstarted : Fault) : Machine Slice :=
  if s.bytes.size = 0 then fail unstarted
  else do
    let first ← present s.bytes[0]?
    if first = 0 then return s else fail unstarted

variable {s heap : Slice}

/-- A heap is accepted by its first byte, if it has one. -/
theorem readHeap_eq (s : Slice) (unstarted : Fault) : readHeap s unstarted =
    if s.bytes[0]? = some 0 then .ok s else fail unstarted := by
  unfold readHeap
  split
  · rename_i hEmpty
    rw [Array.getElem?_eq_none (by omega), if_neg nofun]
  · rename_i hSome
    rw [Array.getElem?_eq_getElem (by omega)]
    change (if _ then _ else _) = _
    simp only [Option.some.injEq]
    rfl

namespace Identifiers

/-- The name at an index of a heap. -/
def readName (heap : Slice) (index : Nat) : Machine String :=
  if heap.bytes.size ≤ index then fail .outOfBounds
  else do
    let rest ← heap.drop index
    match terminator? rest.bytes 0 with
    | none => fail (.badIdentifier index)
    | some stop =>
      match Bytes.utf8? (rest.bytes.extract 0 stop) with
      | none => fail (.badIdentifier index)
      | some name => return name

/-- Reads a heap and looks up a name. -/
def readGet (s : Slice) (index : Nat) : Machine String := do
  let heap ← readHeap s .identifiersUnstarted
  readName heap index

/-- The first zero byte is the same one when the bytes before the offset are cut off. -/
theorem terminator?_extract {data : Bytes} {start offset : Nat} (h : start ≤ data.size) :
    terminator? data (start + offset)
      = (terminator? (data.extract start data.size) offset).map (start + ·) := by
  have hSize : (data.extract start data.size).size = data.size - start := by
    rw [Array.size_extract, Nat.min_self]
  fun_induction terminator? (data.extract start data.size) offset with
  | case1 offset bound hZero =>
      rw [Array.getElem_extract] at hZero
      rw [terminator?, dif_pos (by omega), if_pos hZero]
      rfl
  | case2 offset bound hByte ih =>
      rw [Array.getElem_extract] at hByte
      rw [terminator?, dif_pos (by omega), if_neg hByte, Nat.add_assoc, ih]
  | case3 offset hEnd =>
      rw [terminator?, dif_neg (by omega)]
      rfl

/-- The zero behind a name is in the heap. -/
theorem lt_of_terminator? {data : Bytes} {offset stop : Nat}
    (h : terminator? data offset = some stop) : stop < data.size := by
  fun_induction terminator? data offset with
  | case1 offset bound hZero =>
      cases h
      exact bound
  | case2 offset bound hByte ih => exact ih h
  | case3 => cases h

/-- The index of a name comes from a row, and may be anything. -/
theorem readName_eq (heap : Slice) (index : Nat) :
    readName heap index = ofChecked (get ⟨heap.bytes⟩ index) := by
  unfold readName get
  by_cases hInside : index < heap.bytes.size
  · obtain ⟨rest, hDrop, hBytes, -⟩ := Slice.drop_of_le (Nat.le_of_lt hInside)
    have hStop : terminator? heap.bytes (index + 0)
        = (terminator? (heap.bytes.extract index heap.bytes.size) 0).map (index + ·) :=
      terminator?_extract (Nat.le_of_lt hInside)
    rw [Nat.add_zero, ← hBytes] at hStop
    rw [if_neg (Nat.not_le.2 hInside), if_pos hInside, hDrop, ok_bind]
    dsimp only
    rw [hStop]
    cases hEnd : terminator? rest.bytes 0 with
    | none => rfl
    | some stop =>
        have hLess := lt_of_terminator? hEnd
        rw [hBytes, Array.size_extract, Nat.min_self] at hLess
        rw [Option.map_some]
        dsimp only
        rw [hBytes, Array.extract_extract, Nat.add_zero, Nat.min_eq_left (by omega)]
        cases Bytes.utf8? (heap.bytes.extract index (index + stop)) <;> rfl
  · rw [if_pos (Nat.le_of_not_lt hInside), if_neg hInside]
    rfl

/-- A heap and an index in it, both from anywhere. -/
theorem readGet_eq (s : Slice) (index : Nat) :
    readGet s index = ofChecked (ofBytes s.bytes >>= fun h => h.get index) := by
  unfold readGet ofBytes
  rw [readHeap_eq]
  split
  · exact readName_eq s index
  · rfl

end Identifiers

namespace Literals

/-- The code units in pairs of bytes; a last single byte is left. -/
def readUnits (part : Slice) : Machine (List UInt16) :=
  (List.range (part.bytes.size / 2)).mapM fun i => do
    let pair ← part.part (2 * i) (2 * i + 2)
    let low ← present pair.bytes[0]?
    let high ← present pair.bytes[1]?
    return UInt16.ofNat (leValue [low, high])

/-- Reads an entry and yields its code units. -/
def readEntry : Reading (List UInt16) := do
  let length ← Compressed.read
  let part ← bytes length
  compute (readUnits part)

/-- The code units of the entry at an index, and where it ends. -/
def entryAt (heap : Slice) (index : Nat) : Machine (List UInt16 × Nat) :=
  (do seek index; readEntry : Reading (List UInt16)) heap 0

/-- The text of the literal at an index. -/
def readText (heap : Slice) (index : Nat) : Machine String := do
  let (units, _) ← entryAt heap index
  return Text.ofUnits units

/-- The entries from an offset on with their offsets, behind those already found, and the fault
that ends them. An entry that does not move forward would be found for ever. -/
def readEntries (heap : Slice) (offset : Nat) (found : Array (Nat × List UInt16)) :
    Machine (Array (Nat × List UInt16) × Option Fault) :=
  if offset < heap.bytes.size then
    match entryAt heap offset with
    | .ok (units, next) =>
      if offset < next then readEntries heap next (found.push (offset, units)) else .error .trap
    | .error (.fault fault) => .ok (found, some fault)
    | .error .trap => .error .trap
  else .ok (found, none)
termination_by heap.bytes.size - offset

/-- Units are taken in pairs of bytes, which the part has. -/
theorem readUnits_eq {data : Bytes} {start length : Nat} {part : Slice}
    (hBytes : part.bytes = data.extract start (start + length))
    (hInside : start + length ≤ data.size) :
    readUnits part = .ok (unitsAt data start (length / 2)) := by
  have hSize : (data.extract start (start + length)).size = length := by
    rw [Array.size_extract]
    omega
  rw [readUnits, hBytes, hSize]
  refine mapM_of_ok fun i hi => ?_
  rw [List.mem_range] at hi
  obtain ⟨pair, hPair, hPairBytes⟩ := Slice.part_of_le (s := part) (Nat.le_add_right (2 * i) 2)
    (by rw [hBytes, hSize]; omega)
  have hAt : ∀ k < 2, pair.bytes[k]? = some (data[start + 2 * i + k]?.getD 0) := by
    intro k hk
    rw [hPairBytes, hBytes, Array.getElem?_extract, Array.getElem?_extract, if_pos (by omega),
      if_pos (by omega), ← Nat.add_assoc, Array.getElem?_eq_getElem (by omega), Option.getD_some]
  rw [hPair, ok_bind, hAt 0 (by omega), hAt 1 (by omega)]
  rfl

/-- The length of an entry comes from the heap. It is checked before anything is cut out. -/
theorem follows_readEntry {start : Nat} : Follows readEntry scanEntry s start := by
  refine Compressed.follows_read.bind fun length middle _ => ?_
  by_cases hInside : middle + length ≤ s.bytes.size
  · obtain ⟨part, hPart, hBytes⟩ := bytes_eq_ok hInside
    rw [Follows, Scan.bind_of_ok (show Scan.position s.bytes _ = .ok _ _ from rfl),
      Scan.bind_of_ok (Scan.skip_of_le hInside)]
    change (bytes length s middle >>= fun result => readUnits result.1 >>= fun units =>
      return (units, result.2)) = _
    rw [hPart, ok_bind, readUnits_eq hBytes hInside]
    rfl
  · rw [Follows, Scan.bind_of_ok (show Scan.position s.bytes _ = .ok _ _ from rfl),
      Scan.bind_of_error (show Scan.skip length s.bytes middle = _ from if_neg hInside)]
    change (bytes length s middle >>= _) = _
    rw [bytes, endWithin_eq s.size_lt, if_neg hInside]
    rfl

theorem entryAt_eq (heap : Slice) (index : Nat) : entryAt heap index =
    ofScan ((do Scan.seek index; scanEntry : Scan (List UInt16)) heap.bytes 0) :=
  (follows_seek index).bind fun _ _ _ => follows_readEntry

theorem readText_eq (heap : Slice) (index : Nat) :
    readText heap index = ofChecked (get ⟨heap.bytes⟩ index) := by
  unfold readText get getUnits Scan.evalAt
  rw [entryAt_eq]
  cases (do Scan.seek index; scanEntry : Scan (List UInt16)) heap.bytes 0 <;> rfl

/-- By induction along the heap. It ends without a trap, but maybe with a fault beside the entries.
-/
theorem readEntries_eq (heap : Slice) (offset : Nat) (found : Array (Nat × List UInt16)) :
    readEntries heap offset found = .ok (entriesFrom heap.bytes (fun _ => true) offset found) := by
  have hEntry : ∀ {offset}, offset < heap.bytes.size →
      entryAt heap offset = ofScan (scanEntry heap.bytes offset) := fun {offset} hInside => by
    rw [entryAt_eq, Scan.bind_of_ok (show Scan.seek offset heap.bytes 0 = .ok () offset from
      if_pos (Nat.le_of_lt hInside))]
  fun_induction entriesFrom heap.bytes (fun _ => true) offset found with
  | case1 offset found hInside units stop hScan hLess ih =>
      rw [readEntries, if_pos hInside, hEntry hInside, hScan]
      exact (if_pos hLess).trans ih
  | case2 offset found hInside fault stop hScan =>
      rw [readEntries, if_pos hInside, hEntry hInside, hScan]
      rfl
  | case3 offset found hEnd => rw [readEntries, if_neg hEnd]

/-- Reads a heap and looks up a literal. -/
def readGet (s : Slice) (index : Nat) : Machine String := do
  let heap ← readHeap s .literalsUnstarted
  readText heap index

/-- Reads a heap and all entries behind the first one. -/
def readAll (s : Slice) : Machine (Array (Nat × List UInt16) × Option Fault) := do
  let heap ← readHeap s .literalsUnstarted
  readEntries heap 1 #[]

theorem readGet_eq (s : Slice) (index : Nat) :
    readGet s index = ofChecked (ofBytes s.bytes >>= fun h => h.get index) := by
  unfold readGet ofBytes
  rw [readHeap_eq]
  split
  · exact readText_eq s index
  · rfl

theorem readAll_eq (s : Slice) :
    readAll s = ofChecked (ofBytes s.bytes >>= fun h => .ok h.entries) := by
  unfold readAll ofBytes
  rw [readHeap_eq]
  split
  · exact readEntries_eq s 1 #[]
  · rfl

end Literals

end IlSplice
