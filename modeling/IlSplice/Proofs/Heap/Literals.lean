import IlSplice.Heap.Identifiers
import IlSplice.Heap.Literals
import IlSplice.Proofs.Bytes.Compressed
import IlSplice.Proofs.Text.Units

/-! What is found in a heap is found in every heap that goes on behind it. -/

namespace IlSplice

open Bytes

/-- Whatever goes on behind data that is not empty starts as the data does. -/
theorem Bytes.Agree.head {data other : Bytes} {b : UInt8} (hAgree : data.Agree other 0 data.size)
    (hStart : data[0]? = some b) : other[0]? = some b := by
  rw [← hAgree 0 (Nat.le_refl _) (Array.getElem?_eq_some_iff.1 hStart).1, hStart]

namespace Identifiers

/-- Only the first byte is checked. Names are looked at when they are asked for. -/
theorem ofBytes_eq_ok {data : Bytes} {h : Identifiers} :
    ofBytes data = .ok h ↔ data[0]? = some 0 ∧ h.data = data := by
  unfold ofBytes
  split
  · rename_i hStart
    rw [Except.ok.injEq, and_iff_right hStart]
    exact ⟨fun hSame => hSame ▸ rfl, fun hSame => hSame ▸ rfl⟩
  · rename_i hStart
    simp [hStart]

theorem terminator?_congr {data other : Bytes} {offset stop : Nat}
    (hFind : terminator? data offset = some stop) (hAgree : data.Agree other 0 data.size)
    (hSize : data.size ≤ other.size) : stop < data.size ∧ terminator? other offset = some stop := by
  fun_induction terminator? data offset with
  | case1 offset hInside hZero =>
      obtain rfl : offset = stop := Option.some.inj hFind
      have hSame : other[offset]? = data[offset]? := (hAgree offset (Nat.zero_le _) hInside).symm
      rw [Array.getElem?_eq_getElem hInside, Array.getElem?_eq_getElem (by omega)] at hSame
      refine ⟨hInside, ?_⟩
      rw [terminator?, dif_pos (by omega), Option.some.inj hSame, if_pos hZero]
  | case2 offset hInside hOther ih =>
      have hSame : other[offset]? = data[offset]? := (hAgree offset (Nat.zero_le _) hInside).symm
      rw [Array.getElem?_eq_getElem hInside, Array.getElem?_eq_getElem (by omega)] at hSame
      obtain ⟨hStop, hAgain⟩ := ih hFind
      refine ⟨hStop, ?_⟩
      rw [terminator?, dif_pos (by omega), Option.some.inj hSame, if_neg hOther, hAgain]
  | case3 offset hOutside => cases hFind

/-- A name is found in every heap that starts with the given one. -/
theorem get_congr {h h' : Identifiers} {offset : Nat} {name : String}
    (hGet : h.get offset = .ok name) (hAgree : h.data.Agree h'.data 0 h.data.size)
    (hSize : h.data.size ≤ h'.data.size) : h'.get offset = .ok name := by
  unfold get at hGet
  split at hGet
  · rename_i hInside
    split at hGet
    · cases hGet
    rename_i stop hFind
    split at hGet
    · cases hGet
    rename_i text hText
    cases hGet
    obtain ⟨hStop, hAgain⟩ := terminator?_congr hFind hAgree hSize
    rw [get, if_pos (by omega), hAgain]
    dsimp only
    rw [← (hAgree.mono (Nat.zero_le _) (Nat.le_of_lt hStop)).extract (Nat.le_of_lt hStop)
      (by omega), hText]
  · cases hGet

end Identifiers

namespace Literals

/-- Only the first byte is checked. Entries are looked at when they are asked for. -/
theorem ofBytes_eq_ok {data : Bytes} {h : Literals} :
    ofBytes data = .ok h ↔ data[0]? = some 0 ∧ h.data = data := by
  unfold ofBytes
  split
  · rename_i hStart
    rw [Except.ok.injEq, and_iff_right hStart]
    exact ⟨fun hSame => hSame ▸ rfl, fun hSame => hSame ▸ rfl⟩
  · rename_i hStart
    simp [hStart]

theorem unitsAt_congr {data other : Bytes} {offset count : Nat}
    (hAgree : data.Agree other offset (offset + 2 * count)) :
    unitsAt data offset count = unitsAt other offset count := by
  refine List.map_congr_left fun i hi => ?_
  have hi := List.mem_range.1 hi
  rw [(hAgree.mono (by omega) (by omega) :
    data.Agree other (offset + 2 * i) (offset + 2 * i + 2)).uintAt]

/-- The length is read first, and all that it announces has to be there. An odd byte at the end is
not part of the units. -/
theorem scanEntry_eq_ok {data : Bytes} {start stop : Nat} {units : List UInt16}
    (hScan : scanEntry data start = .ok units stop) :
    ∃ length middle, Compressed.scan data start = .ok length middle ∧ stop = middle + length ∧
      stop ≤ data.size ∧ units = unitsAt data middle (length / 2) := by
  obtain ⟨length, middle, hLength, hScan⟩ := Scan.bind_eq_ok hScan
  obtain ⟨_, _, hPosition, hScan⟩ := Scan.bind_eq_ok hScan
  cases hPosition
  obtain ⟨_, _, hSkip, hScan⟩ := Scan.bind_eq_ok hScan
  obtain ⟨_, _, hRead, hScan⟩ := Scan.bind_eq_ok hScan
  cases hRead
  cases hScan
  obtain ⟨rfl, hSize⟩ := Scan.skip_eq_ok hSkip
  exact ⟨length, middle, hLength, rfl, hSize, rfl⟩

theorem scanEntry_of_scan {data : Bytes} {start middle length : Nat}
    (hLength : Compressed.scan data start = .ok length middle)
    (hSize : middle + length ≤ data.size) :
    scanEntry data start = .ok (unitsAt data middle (length / 2)) (middle + length) := by
  rw [scanEntry, Scan.bind_of_ok hLength,
    Scan.bind_of_ok (show Scan.position data _ = .ok _ _ from rfl),
    Scan.bind_of_ok (Scan.skip_of_le hSize)]
  rfl

/-- An entry depends on its own bytes only, although its units are cut out of the heap. -/
theorem local_scanEntry : Scan.Local scanEntry where
  le h := Nat.le_of_lt (lt_of_scanEntry h)
  congr h hAgree hStop := by
    obtain ⟨length, middle, hLength, rfl, _, rfl⟩ := scanEntry_eq_ok h
    have hMiddle := Compressed.local_scan.le hLength
    rw [scanEntry_of_scan (Compressed.local_scan.congr hLength (hAgree.mono (Nat.le_refl _)
      (by omega)) (by omega)) hStop, unitsAt_congr (hAgree.mono hMiddle (by omega))]

/-- Any offset of the heap can be asked for, not only those where an entry was put. -/
theorem getUnits_eq_ok {h : Literals} {offset : Nat} {units : List UInt16} :
    h.getUnits offset = .ok units ↔ offset ≤ h.data.size ∧
      ∃ stop, scanEntry h.data offset = .ok units stop := by
  rw [getUnits, Scan.evalAt_eq_ok]
  constructor
  · rintro ⟨stop, hScan⟩
    obtain ⟨_, middle, hSeek, hEntry⟩ := Scan.bind_eq_ok hScan
    obtain ⟨rfl, hSize⟩ := Scan.seek_eq_ok hSeek
    exact ⟨hSize, stop, hEntry⟩
  · rintro ⟨hSize, stop, hScan⟩
    refine ⟨stop, ?_⟩
    rw [Scan.bind_of_ok (show Scan.seek offset h.data 0 = .ok () offset from if_pos hSize), hScan]

/-- The units of a literal are found in every heap that starts with the given one. -/
theorem getUnits_congr {h h' : Literals} {offset : Nat} {units : List UInt16}
    (hGet : h.getUnits offset = .ok units) (hAgree : h.data.Agree h'.data 0 h.data.size)
    (hSize : h.data.size ≤ h'.data.size) : h'.getUnits offset = .ok units := by
  obtain ⟨hInside, stop, hScan⟩ := getUnits_eq_ok.1 hGet
  obtain ⟨_, _, _, _, hStop, _⟩ := scanEntry_eq_ok hScan
  exact getUnits_eq_ok.2 ⟨by omega, stop, local_scanEntry.congr hScan
    (hAgree.mono (Nat.zero_le _) hStop) (by omega)⟩

theorem get_congr {h h' : Literals} {offset : Nat} {text : String}
    (hGet : h.get offset = .ok text) (hAgree : h.data.Agree h'.data 0 h.data.size)
    (hSize : h.data.size ≤ h'.data.size) : h'.get offset = .ok text := by
  obtain ⟨units, hUnits, hText⟩ := Except.bind_eq_ok.1 hGet
  exact Except.bind_eq_ok.2 ⟨units, getUnits_congr hUnits hAgree hSize, hText⟩

/-- The units of a text give back the text, since splitting a text loses nothing. -/
theorem get_of_getUnits {h : Literals} {offset : Nat} {text : String}
    (hUnits : h.getUnits offset = .ok (Text.units text)) : h.get offset = .ok text := by
  rw [get, hUnits]
  exact congrArg Except.ok (Text.ofUnits_units text)

end Literals

end IlSplice
