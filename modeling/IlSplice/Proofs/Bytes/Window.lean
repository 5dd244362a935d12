import IlSplice.Bytes
import Mathlib

/-! Parts of byte strings: which bytes stand at an offset, and where two byte strings have the
same bytes. Numbers, slices and overwritten fields are read off these two relations. -/

namespace IlSplice

namespace Bytes

/-- The data has the given bytes at an offset. -/
def Holds (data : Bytes) (offset : Nat) (bs : List UInt8) : Prop :=
  offset + bs.length ≤ data.size ∧ ∀ i, i < bs.length → data[offset + i]? = bs[i]?

/-- Two byte strings have the same bytes from `start` up to `stop`. -/
def Agree (first second : Bytes) (start stop : Nat) : Prop :=
  ∀ i, start ≤ i → i < stop → first[i]? = second[i]?

variable {data first second third : Bytes} {offset start stop : Nat} {bs xs ys : List UInt8}

/-- Even no bytes are held only inside the data or at its end. -/
theorem holds_nil : data.Holds offset [] ↔ offset ≤ data.size := by
  simp [Holds]

/-- Bytes are held exactly if both parts are, one behind the other. Records are taken apart by this.
-/
theorem holds_append :
    data.Holds offset (xs ++ ys) ↔ data.Holds offset xs ∧ data.Holds (offset + xs.length) ys := by
  unfold Holds
  rw [List.length_append]
  constructor
  · rintro ⟨hSize, hGet⟩
    refine ⟨⟨by omega, fun i hi => ?_⟩, ⟨by omega, fun i hi => ?_⟩⟩
    · rw [hGet i (by omega), List.getElem?_append_left hi]
    · rw [Nat.add_assoc, hGet _ (by omega), List.getElem?_append_right (by omega)]
      congr 1
      omega
  · rintro ⟨⟨_, hLeft⟩, hSize, hRight⟩
    refine ⟨by omega, fun i hi => ?_⟩
    by_cases h : i < xs.length
    · rw [hLeft i h, List.getElem?_append_left h]
    · rw [List.getElem?_append_right (by omega), ← hRight _ (by omega)]
      congr 1
      omega

theorem Holds.drop (h : data.Holds offset bs) {n : Nat} (hn : n ≤ bs.length) :
    data.Holds (offset + n) (bs.drop n) := by
  rw [← List.take_append_drop n bs, holds_append, List.length_take, Nat.min_eq_left hn] at h
  exact h.2

/-- A held list of bytes is known by single lookups. -/
theorem holds_cons {b : UInt8} :
    data.Holds offset (b :: bs) ↔ data[offset]? = some b ∧ data.Holds (offset + 1) bs := by
  rw [← List.singleton_append, holds_append]
  refine and_congr ⟨fun h => h.2 0 (by simp), fun h => ⟨?_, fun i hi => ?_⟩⟩ (by rfl)
  · exact (Array.getElem?_eq_some_iff.1 h).1
  · obtain rfl : i = 0 := by simpa using hi
    exact h

/-- A byte string holds each of the parts that it is put together from. -/
theorem holds_middle (front : Bytes) (bs : List UInt8) (back : Bytes) :
    Holds (front ++ bs.toArray ++ back) front.size bs := by
  refine ⟨by simp, fun i hi => ?_⟩
  rw [Array.append_assoc, Array.getElem?_append_right (by omega), Array.getElem?_append_left]
  · simp
  · simpa using hi

theorem holds_end (front back : Bytes) : Holds (front ++ back) front.size back.toList := by
  simpa using holds_middle front back.toList #[]

theorem holds_self (data : Bytes) : data.Holds 0 data.toList := by
  refine ⟨by simp, fun i _ => ?_⟩
  simp

theorem Holds.offset_le (h : data.Holds offset bs) : offset ≤ data.size := by
  have := h.1
  omega

/-- Held bytes are found by cutting them out. -/
theorem Holds.extract (h : data.Holds offset bs) :
    data.extract offset (offset + bs.length) = bs.toArray := by
  apply Array.ext_getElem?
  intro i
  have hSize := h.1
  rw [Array.getElem?_extract]
  by_cases hi : i < bs.length
  · rw [if_pos (by omega), h.2 i hi, List.getElem?_toArray]
  · rw [if_neg (by omega), List.getElem?_toArray, List.getElem?_eq_none (by omega)]

theorem holds_extract (h : start ≤ stop) (hStop : stop ≤ data.size) :
    data.Holds start (data.extract start stop).toList := by
  have hSize : (data.extract start stop).size = stop - start := by
    rw [Array.size_extract]
    omega
  refine ⟨by rw [Array.length_toList, hSize]; omega, fun i hi => ?_⟩
  rw [Array.length_toList, hSize] at hi
  rw [Array.getElem?_toList, Array.getElem?_extract, if_pos (by omega)]

/-- What is held by bytes that are held themselves. -/
theorem Holds.trans {inner : Bytes} {start : Nat} (h : data.Holds offset inner.toList)
    (hInner : inner.Holds start bs) : data.Holds (offset + start) bs := by
  obtain ⟨hSize, hGet⟩ := h
  obtain ⟨hInside, hBytes⟩ := hInner
  rw [Array.length_toList] at hSize hGet
  refine ⟨by omega, fun i hi => ?_⟩
  rw [Nat.add_assoc, hGet (start + i) (by omega), Array.getElem?_toList, hBytes i hi]

/-- Bytes that lie in a part of the data are held by the part, at an offset that counts from its
start. -/
theorem Holds.of_extract (h : data.Holds (start + offset) bs)
    (hInside : start + offset + bs.length ≤ stop) (hStop : stop ≤ data.size) :
    Holds (data.extract start stop) offset bs := by
  refine ⟨by rw [Array.size_extract]; omega, fun i hi => ?_⟩
  rw [Array.getElem?_extract, if_pos (by omega), ← h.2 i hi, Nat.add_assoc]

/-- What is held decides a number that is read there. -/
theorem Holds.uintAt (h : data.Holds offset bs) : data.uintAt offset bs.length = leValue bs := by
  induction bs generalizing offset with
  | nil => rfl
  | cons b rest ih =>
      obtain ⟨hByte, hRest⟩ := holds_cons.1 h
      rw [List.length_cons, Bytes.uintAt, leValue, ih hRest, hByte, Option.getD_some]

theorem Holds.uintAt_leBytes {width n : Nat} (h : data.Holds offset (leBytes width n)) :
    data.uintAt offset width = n % byteRange width := by
  have hValue := h.uintAt
  rw [length_leBytes] at hValue
  rw [hValue, leValue_leBytes]

theorem Holds.uintAt_of_lt {width n : Nat} (h : data.Holds offset (leBytes width n))
    (hRange : n < byteRange width) : data.uintAt offset width = n := by
  rw [h.uintAt_leBytes, Nat.mod_eq_of_lt hRange]

theorem Agree.symm (h : Agree first second start stop) : Agree second first start stop :=
  fun i hStart hStop => (h i hStart hStop).symm

/-- The middle one needs the bytes of this range only, it may be of any size. -/
theorem Agree.trans (h : Agree first second start stop) (h' : Agree second third start stop) :
    Agree first third start stop :=
  fun i hStart hStop => (h i hStart hStop).trans (h' i hStart hStop)

theorem Agree.mono (h : Agree first second start stop) {start' stop' : Nat}
    (hStart : start ≤ start') (hStop : stop' ≤ stop) : Agree first second start' stop' :=
  fun i h₁ h₂ => h i (Nat.le_trans hStart h₁) (Nat.lt_of_lt_of_le h₂ hStop)

/-- Where bytes are the same, the numbers are. This holds behind the end as well, where missing
bytes count as zero. -/
theorem Agree.uintAt {width : Nat} (h : Agree first second offset (offset + width)) :
    first.uintAt offset width = second.uintAt offset width := by
  induction width generalizing offset with
  | zero => rfl
  | succ width ih =>
      rw [Bytes.uintAt, Bytes.uintAt, h offset (by omega) (by omega),
        ih (h.mono (by omega) (by omega))]

/-- Parts are the same only if both byte strings reach the end of the range, since otherwise one
part could be shorter. -/
theorem Agree.extract (h : Agree first second start stop) (hFirst : stop ≤ first.size)
    (hSecond : stop ≤ second.size) : first.extract start stop = second.extract start stop := by
  apply Array.ext_getElem?
  intro i
  rw [Array.getElem?_extract, Array.getElem?_extract, Nat.min_eq_left hFirst,
    Nat.min_eq_left hSecond]
  split
  · exact h _ (by omega) (by omega)
  · rfl

/-- A number can be read from a part or from the whole. -/
theorem uintAt_extract {width : Nat} (h : start + offset + width ≤ stop) :
    uintAt (data.extract start stop) offset width = data.uintAt (start + offset) width := by
  induction width generalizing offset with
  | zero => rfl
  | succ width ih =>
      have hByte : (data.extract start stop)[offset]? = data[start + offset]? := by
        rw [Array.getElem?_extract]
        split
        · rfl
        · rw [Array.getElem?_eq_none (by omega)]
      rw [Bytes.uintAt, Bytes.uintAt, hByte, ih (by omega), Nat.add_assoc]

theorem slice_eq_ok {part : Bytes} (h : data.slice start stop = .ok part) :
    start ≤ stop ∧ stop ≤ data.size ∧ part = data.extract start stop := by
  unfold slice at h
  split at h
  · rename_i hInside
    cases h
    exact ⟨hInside.1, hInside.2, rfl⟩
  · cases h

/-- Held bytes depend on the range where they stand, and on the end of the data. -/
theorem Holds.congr (h : first.Holds offset bs)
    (hAgree : Agree first second offset (offset + bs.length))
    (hSize : offset + bs.length ≤ second.size) : second.Holds offset bs :=
  ⟨hSize, fun i hi => (hAgree _ (by omega) (by omega)).symm.trans (h.2 i hi)⟩

/-- Cutting out in terms of lists, so that files that are written down are evaluated step by step.
-/
theorem extract_eq_toArray (data : Bytes) (start stop : Nat) :
    data.extract start stop = ((data.toList.drop start).take (stop - start)).toArray := by
  rw [← List.extract_eq_take_drop, ← Array.toList_extract, Array.toArray_toList]

theorem append_eq_toArray (front back : Bytes) :
    front ++ back = (front.toList ++ back.toList).toArray := by
  rw [← Array.toList_append, Array.toArray_toList]

theorem resize_eq_toArray (data : Bytes) (size : Nat) :
    resize data size
      = (data.toList.take size ++ List.replicate (size - data.size) 0).toArray := by
  simp [resize, extract_eq_toArray]

theorem size_padTo (data : Bytes) {alignment : Nat} (h : 0 < alignment) :
    (data.padTo alignment).size = alignUp data.size alignment := by
  have := le_alignUp data.size h
  rw [padTo, Array.size_append, Array.size_replicate]
  omega

theorem agree_append (data more : Bytes) : data.Agree (data ++ more) 0 data.size :=
  fun _ _ hi => (Array.getElem?_append_left hi).symm

theorem agree_padTo (data : Bytes) (alignment : Nat) (hAlignment : 0 < alignment) :
    data.Agree (data.padTo alignment) 0 data.size ∧ data.size ≤ (data.padTo alignment).size := by
  refine ⟨agree_append _ _, ?_⟩
  rw [size_padTo data hAlignment]
  exact le_alignUp _ hAlignment

/-- What is put behind padded data stands at a multiple of the alignment. -/
theorem Holds.of_padTo {front back : Bytes} {alignment : Nat} (hAlignment : 0 < alignment)
    (h : data.Holds offset (front.padTo alignment ++ back).toList) :
    data.Holds offset front.toList ∧
      data.Holds (offset + alignUp front.size alignment) back.toList := by
  rw [Array.toList_append, holds_append, Array.length_toList, size_padTo front hAlignment] at h
  obtain ⟨hFront, hBack⟩ := h
  rw [padTo, Array.toList_append, holds_append] at hFront
  exact ⟨hFront.1, hBack⟩

/-- A number of zeros is zero. This finds fields that cannot lie on an empty part of a file. -/
theorem uintAt_eq_zero {width : Nat}
    (hZero : ∀ i, offset ≤ i → i < offset + width → data[i]? = some 0) :
    data.uintAt offset width = 0 := by
  induction width generalizing offset with
  | zero => rfl
  | succ width ih =>
      rw [Bytes.uintAt, hZero offset (Nat.le_refl _) (by omega),
        ih fun i hStart hStop => hZero i (by omega) (by omega)]
      rfl

theorem uintAt_lt (data : Bytes) (offset width : Nat) :
    data.uintAt offset width < byteRange width := by
  induction width generalizing offset with
  | zero => simp [Bytes.uintAt, byteRange]
  | succ width ih =>
      have := ih (offset + 1)
      have := (data[offset]?.getD 0).toNat_lt
      rw [Bytes.uintAt, byteRange]
      omega

@[simp] theorem toNat_ofNat_uintAt (data : Bytes) (offset : Nat) :
    (UInt32.ofNat (data.uintAt offset 4)).toNat = data.uintAt offset 4 := by
  have hRange : data.uintAt offset 4 < 2 ^ 32 := uintAt_lt data offset 4
  rw [UInt32.toNat_ofNat', Nat.mod_eq_of_lt hRange]

end Bytes

theorem byteRange_pos (width : Nat) : 0 < byteRange width := by
  induction width with
  | zero => simp [byteRange]
  | succ width ih => simpa [byteRange] using ih

/-- Two's complement gives back every number that has a place in its width. -/
theorem signedValue_leSigned {width : Nat} {n : Int} (hLow : -(byteRange width : Int) ≤ 2 * n)
    (hHigh : 2 * n < byteRange width) :
    signedValue width (leValue (leSigned width n)) = n := by
  have hPos := byteRange_pos width
  have hMod : 0 ≤ n % (byteRange width : Int) := Int.emod_nonneg n (by omega)
  rw [leSigned, leValue_leBytes, signedValue, Int.natCast_emod, Int.toNat_of_nonneg hMod,
    Int.emod_emod_of_dvd _ (Int.dvd_refl _), Int.emod_bmod]
  exact Int.bmod_eq_of_le_mul_two (by omega) (by omega)

end IlSplice
