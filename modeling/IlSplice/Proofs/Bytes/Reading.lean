import IlSplice.Proofs.Bytes.Window
import IlSplice.Proofs.Outcome

/-! Reading what is known to stand at a position. A number is read from the bytes that encode it,
and a scan that looks only at what it moves over reads the same from all data with these bytes. -/

namespace IlSplice

namespace Bytes.Holds

variable {data : Bytes} {offset : Nat} {bs : List UInt8}

/-- Bytes that stand somewhere are read there as a number, whatever is around them. All other
readers are brought back to this one. -/
theorem scan_uint (h : data.Holds offset bs) :
    Scan.uint bs.length data offset = .ok (leValue bs) (offset + bs.length) := by
  rw [Scan.uint, if_pos h.1, h.uintAt]

theorem scan_byte {b : UInt8} (h : data.Holds offset [b]) :
    Scan.uint 1 data offset = .ok b.toNat (offset + 1) :=
  h.scan_uint

/-- A number that was written is read back if it fits its bytes. -/
theorem scan_leBytes {width n : Nat} (h : data.Holds offset (leBytes width n))
    (hn : n < byteRange width) : Scan.uint width data offset = .ok n (offset + width) := by
  have hScan := h.scan_uint
  rwa [length_leBytes, leValue_leBytes, Nat.mod_eq_of_lt hn] at hScan

/-- The bounds are those of two's complement, doubled so that they are whole numbers. -/
theorem scan_leSigned {width : Nat} {n : Int} (h : data.Holds offset (leSigned width n))
    (hLow : -(byteRange width : Int) ≤ 2 * n) (hHigh : 2 * n < byteRange width) :
    Scan.int width data offset = .ok n (offset + width) := by
  have hScan := h.scan_uint
  rw [leSigned, length_leBytes] at hScan
  rw [Scan.int, Scan.bind_of_ok hScan, Scan.pure_eq_ok, ← leSigned]
  exact ⟨signedValue_leSigned hLow hHigh, rfl⟩

theorem scan_u16 {n : UInt16} (h : data.Holds offset (leBytes 2 n.toNat)) :
    Scan.u16 data offset = .ok n (offset + 2) := by
  rw [Scan.u16, Scan.bind_of_ok (h.scan_leBytes n.toNat_lt), Scan.pure_eq_ok]
  exact ⟨UInt16.ofNat_toNat, rfl⟩

theorem scan_u32 {n : UInt32} (h : data.Holds offset (leBytes 4 n.toNat)) :
    Scan.u32 data offset = .ok n (offset + 4) := by
  rw [Scan.u32, Scan.bind_of_ok (h.scan_leBytes n.toNat_lt), Scan.pure_eq_ok]
  exact ⟨UInt32.ofNat_toNat, rfl⟩

theorem scan_token {t : Token} (h : data.Holds offset (leBytes 4 t.value.toNat)) :
    Scan.token data offset = .ok t (offset + 4) := by
  rw [Scan.token, Scan.bind_of_ok h.scan_u32, Scan.pure_eq_ok]
  exact ⟨rfl, rfl⟩

theorem scan_bytes (h : data.Holds offset bs) :
    Scan.bytes bs.length data offset = .ok bs.toArray (offset + bs.length) := by
  rw [Scan.bytes, if_pos h.1, h.extract]

end Bytes.Holds

theorem Bytes.scan_u8 {data : Bytes} {offset : Nat} {b : UInt8} (h : data[offset]? = some b) :
    Scan.u8 data offset = .ok b (offset + 1) := by
  have hByte : data.Holds offset [b] :=
    holds_cons.2 ⟨h, holds_nil.2 (Array.getElem?_eq_some_iff.1 h).1⟩
  rw [Scan.u8, Scan.bind_of_ok hByte.scan_byte, Scan.pure_eq_ok]
  exact ⟨UInt8.ofNat_toNat, rfl⟩

namespace Scan

/-- A scan that never moves backwards and looks at no bytes but those that it moves over. -/
structure Local (scan : Scan α) : Prop extends Forward scan where
  congr : ∀ {data other start value stop}, scan data start = .ok value stop →
    data.Agree other start stop → stop ≤ other.size → scan other start = .ok value stop

theorem local_pure (value : α) : Local (pure value : Scan α) where
  toForward := forward_pure value
  congr h _ _ := by
    obtain ⟨rfl, rfl⟩ := pure_eq_ok.1 h
    rfl

/-- A failure reads nothing, and so is the same on any data. -/
theorem local_throw (fault : Fault) : Local (throw fault : Scan α) where
  toForward := forward_throw fault
  congr h := by cases h

theorem local_position : Local position where
  toForward := forward_position
  congr h _ _ := by
    cases h
    rfl

/-- The second step reads behind the first one, so what both depend on is one range of bytes. -/
theorem Local.bind {scan : Scan α} {next : α → Scan β} (hs : Local scan)
    (hn : ∀ a, Local (next a)) : Local (scan >>= next) where
  toForward := hs.toForward.bind fun a => (hn a).toForward
  congr h hAgree hStop := by
    obtain ⟨a, middle, h₁, h₂⟩ := bind_eq_ok h
    have hFirst := hs.le h₁
    have hSecond := (hn a).le h₂
    rw [bind_of_ok (hs.congr h₁ (hAgree.mono (Nat.le_refl _) hSecond) (by omega))]
    exact (hn a).congr h₂ (hAgree.mono hFirst (Nat.le_refl _)) hStop

theorem local_uint (width : Nat) : Local (uint width) where
  toForward := forward_uint width
  congr h hAgree hStop := by
    obtain ⟨rfl, _, rfl⟩ := uint_eq_ok h
    rw [uint, if_pos hStop, hAgree.uintAt]

theorem bytes_eq_ok {count : Nat} {data value : Bytes} {start stop : Nat}
    (h : bytes count data start = .ok value stop) :
    stop = start + count ∧ stop ≤ data.size ∧ value = data.extract start stop := by
  unfold bytes at h
  split at h
  · cases h
    exact ⟨rfl, ‹_›, rfl⟩
  · cases h

theorem skip_eq_ok {count : Nat} {data : Bytes} {start stop : Nat}
    (h : skip count data start = .ok () stop) : stop = start + count ∧ stop ≤ data.size := by
  unfold skip at h
  split at h
  · cases h
    exact ⟨rfl, ‹_›⟩
  · cases h

theorem skip_of_le {count : Nat} {data : Bytes} {start : Nat} (h : start + count ≤ data.size) :
    skip count data start = .ok () (start + count) :=
  if_pos h

/-- A skip followed by more reading, as one step. It reads off where a failure leaves the position.
-/
theorem skip_bind {next : Unit → Scan α} {count : Nat} {data : Bytes} {start : Nat} :
    (skip count >>= next) data start =
      if start + count ≤ data.size then next () data (start + count)
      else .error .outOfBounds start := by
  split
  · rename_i h
    exact bind_of_ok (if_pos h)
  · rename_i h
    exact bind_of_error (if_neg h)

theorem local_skip (count : Nat) : Local (skip count) where
  toForward := forward_skip count
  congr h _ hStop := by
    obtain ⟨rfl, _⟩ := skip_eq_ok h
    exact skip_of_le hStop

theorem local_align (origin alignment : Nat) : Local (align origin alignment) :=
  local_position.bind fun _ => local_skip _

/-- The readers of all fixed widths read a number and convert it, and so this is stated for any
conversion. -/
theorem uint_map_eq_ok {f : Nat → α} {width : Nat} {data : Bytes} {start stop : Nat} {a : α}
    (h : (do return f (← uint width) : Scan α) data start = .ok a stop) :
    stop = start + width ∧ stop ≤ data.size ∧ a = f (data.uintAt start width) := by
  obtain ⟨value, middle, hScan, hPure⟩ := bind_eq_ok h
  obtain ⟨rfl, rfl⟩ := pure_eq_ok.1 hPure
  obtain ⟨rfl, hSize, rfl⟩ := uint_eq_ok hScan
  exact ⟨rfl, hSize, rfl⟩

theorem uint_map_bind {f : Nat → α} {next : α → Scan β} {width : Nat} {data : Bytes} {start : Nat} :
    ((do return f (← uint width)) >>= next) data start =
      if start + width ≤ data.size then next (f (data.uintAt start width)) data (start + width)
      else .error .outOfBounds start := by
  split
  · rename_i h
    exact bind_of_ok (bind_of_ok (if_pos h))
  · rename_i h
    exact bind_of_error (bind_of_error (if_neg h))

theorem uint_bind_of_le {next : Nat → Scan α} {width : Nat} {data : Bytes} {start : Nat}
    (h : start + width ≤ data.size) : (uint width >>= next) data start
      = next (data.uintAt start width) data (start + width) :=
  bind_of_ok (if_pos h)

/-- A byte is read exactly if it is there, and so a byte that was found can be looked up instead. -/
theorem u8_eq_ok {data : Bytes} {start stop : Nat} {b : UInt8} :
    u8 data start = .ok b stop ↔ data[start]? = some b ∧ stop = start + 1 := by
  constructor
  · intro h
    obtain ⟨rfl, hInside, rfl⟩ := uint_map_eq_ok h
    have hByte := Array.getElem?_eq_getElem (show start < data.size from hInside)
    rw [hByte, Bytes.uintAt, hByte, Option.getD_some, Bytes.uintAt, Nat.mul_zero, Nat.add_zero,
      UInt8.ofNat_toNat]
    exact ⟨rfl, rfl⟩
  · rintro ⟨hByte, rfl⟩
    exact Bytes.scan_u8 hByte

/-- A scan that fails nowhere but at the end of the data. -/
def FailsAtEnd (scan : Scan α) : Prop :=
  ∀ data start fault stop, scan data start = .error fault stop → fault = .outOfBounds

theorem failsAtEnd_pure (value : α) : FailsAtEnd (pure value) := fun _ _ _ _ h => nomatch h

theorem failsAtEnd_uint (width : Nat) : FailsAtEnd (uint width) := fun data start fault stop h => by
  unfold uint at h
  split at h
  · cases h
  · cases h
    rfl

theorem FailsAtEnd.bind {scan : Scan α} {next : α → Scan β} (hs : FailsAtEnd scan)
    (hn : ∀ a, FailsAtEnd (next a)) : FailsAtEnd (scan >>= next) := by
  intro data start fault stop h
  rcases bind_eq_error.1 h with hFirst | ⟨a, middle, -, hSecond⟩
  · exact hs _ _ _ _ hFirst
  · exact hn a _ _ _ _ hSecond

theorem failsAtEnd_u8 : FailsAtEnd u8 := (failsAtEnd_uint 1).bind fun _ => failsAtEnd_pure _

theorem local_u8 : Local u8 := (local_uint 1).bind fun _ => local_pure _

theorem local_u16 : Local u16 := (local_uint 2).bind fun _ => local_pure _

theorem local_u32 : Local u32 := (local_uint 4).bind fun _ => local_pure _

theorem local_token : Local token := local_u32.bind fun _ => local_pure _

/-- By induction on how often the step is repeated. Each repetition starts where the last one ended.
-/
theorem local_times {scan : Scan α} (hs : Local scan) (count : Nat) :
    Local (times count scan) := by
  suffices ∀ found, Local (times.collect scan count found) from this []
  induction count with
  | zero => exact fun _ => local_pure _
  | succ count ih => exact fun found => hs.bind fun value => ih (value :: found)

/-- A scan that always moves over the same number of bytes, to a value with a property. -/
def Moves (scan : Scan α) (width : Nat) (P : α → Prop) : Prop :=
  ∀ data start value stop, scan data start = .ok value stop → stop = start + width ∧ P value

/-- A scan that always moves over as many bytes is repeated at places with that distance. -/
theorem Moves.times_eq_ok {scan : Scan α} {width count : Nat} {P : α → Prop}
    (hScan : Moves scan width P) {data : Bytes} {values : List α} {start stop : Nat} :
    Scan.times count scan data start = .ok values stop ↔
      values.length = count ∧ stop = start + count * width ∧ ∀ i v, values[i]? = some v →
        scan data (start + i * width) = .ok v (start + (i + 1) * width) := by
  suffices ∀ found all, times.collect scan count found data start = .ok all stop ↔
      ∃ values, all = found.reverse ++ values ∧ values.length = count ∧
        stop = start + count * width ∧ ∀ i v, values[i]? = some v →
          scan data (start + i * width) = .ok v (start + (i + 1) * width) by
    rw [Scan.times, this]
    exact ⟨fun ⟨_, rfl, hEach⟩ => hEach, fun hEach => ⟨values, rfl, hEach⟩⟩
  induction count generalizing start with
  | zero =>
      intro found all
      rw [times.collect, pure_eq_ok]
      constructor
      · rintro ⟨rfl, rfl⟩
        exact ⟨[], by simp, rfl, by omega, by simp⟩
      · rintro ⟨values, rfl, hCount, rfl, -⟩
        rw [List.length_eq_zero_iff.1 hCount]
        exact ⟨by simp, by omega⟩
  | succ count ih =>
      intro found all
      have hNext : ∀ i, start + (i + 1) * width = start + width + i * width := fun i => by
        rw [Nat.add_mul]
        omega
      constructor
      · intro h
        obtain ⟨value, middle, hFirst, hRest⟩ := bind_eq_ok h
        obtain ⟨rfl, -⟩ := hScan _ _ _ _ hFirst
        obtain ⟨values, rfl, rfl, rfl, hEach⟩ := (ih _ _).1 hRest
        refine ⟨value :: values, by simp, rfl, (hNext _).symm, fun i v hValue => ?_⟩
        cases i with
        | zero =>
            obtain rfl : value = v := by simpa using hValue
            simpa using hFirst
        | succ i =>
            rw [hNext, hNext]
            exact hEach i v (by simpa using hValue)
      · rintro ⟨_ | ⟨value, values⟩, rfl, hCount, rfl, hEach⟩
        · cases hCount
        have hFirst := hEach 0 value rfl
        rw [Nat.zero_mul, Nat.add_zero, Nat.zero_add, Nat.one_mul] at hFirst
        rw [times.collect, bind_of_ok hFirst, ih]
        refine ⟨values, by simp, Nat.succ.inj hCount, hNext count, fun i v hValue => ?_⟩
        rw [← hNext, ← hNext]
        exact hEach (i + 1) v (by simpa using hValue)

/-- A step of fixed width makes a list of fixed width, so that rows of a table lie at multiples. -/
theorem Moves.times {scan : Scan α} {width : Nat} {P : α → Prop} (hScan : Moves scan width P)
    (count : Nat) : Moves (times count scan) (count * width) fun values => ∀ v ∈ values, P v := by
  intro data start values stop h
  obtain ⟨-, hStop, hEach⟩ := hScan.times_eq_ok.1 h
  refine ⟨hStop, fun v hMem => ?_⟩
  obtain ⟨i, hValue⟩ := List.getElem?_of_mem hMem
  exact (hScan _ _ _ _ (hEach i v hValue)).2

/-- Values that stand one behind the other are read one after the other. -/
theorem times_of_forall₂ {scan : Scan α} {data : Bytes} {values : List α}
    {chunks : List (List UInt8)} {position : Nat} (hHolds : data.Holds position chunks.flatten)
    (hScan : List.Forall₂ (fun value chunk => ∀ start, data.Holds start chunk →
      scan data start = .ok value (start + chunk.length)) values chunks) :
    times values.length scan data position = .ok values (position + chunks.flatten.length) := by
  suffices ∀ found, times.collect scan values.length found data position =
      .ok (found.reverse ++ values) (position + chunks.flatten.length) from this []
  induction hScan generalizing position with
  | nil =>
      intro found
      simp [times.collect, pure_eq_ok]
  | @cons value chunk values chunks hHead _ ih =>
      intro found
      rw [List.flatten_cons] at hHolds
      obtain ⟨hChunk, hRest⟩ := Bytes.holds_append.1 hHolds
      rw [List.length_cons, times.collect, bind_of_ok (hHead _ hChunk), ih hRest]
      simp [Nat.add_assoc]

/-- From a position behind the origin, alignment moves to the next multiple of four bytes. -/
theorem align_eq {origin start : Nat} {data : Bytes} (hStart : origin ≤ start) :
    align origin 4 data start =
      if origin + alignUp (start - origin) 4 ≤ data.size then
        .ok () (origin + alignUp (start - origin) 4)
      else .error .outOfBounds start := by
  have hSkip : start + (4 - (start - origin) % 4) % 4 = origin + alignUp (start - origin) 4 := by
    unfold alignUp
    omega
  rw [align, bind_of_ok (show position data _ = .ok _ _ from rfl), skip, hSkip]

/-- The position is aligned as seen from the origin, which need not be aligned itself. -/
theorem align_eq_ok {origin start stop : Nat} {data : Bytes} (hStart : origin ≤ start) :
    align origin 4 data start = .ok () stop ↔
      stop = origin + alignUp (start - origin) 4 ∧ stop ≤ data.size := by
  rw [align_eq hStart]
  constructor
  · intro h
    split at h
    · cases h
      exact ⟨rfl, ‹_›⟩
    · cases h
  · rintro ⟨rfl, hInside⟩
    exact if_pos hInside

/-- Behind `n` bytes, alignment moves to where as many bytes end that were filled up. -/
theorem align_of_le {origin n : Nat} {data : Bytes} (h : origin + alignUp n 4 ≤ data.size) :
    align origin 4 data (origin + n) = .ok () (origin + alignUp n 4) :=
  (align_eq_ok (Nat.le_add_right _ _)).2 ⟨by rw [Nat.add_sub_cancel_left], h⟩

end Scan

end IlSplice
