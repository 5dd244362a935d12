import IlSplice.Bytes.Compressed
import IlSplice.Proofs.Bytes.Reading
import IlSplice.Proofs.Machine.Word

/-! Reading data on a machine. A reading has a position in its data, as a scan has, but computes
it in words and takes the bytes from within bounds. Where it follows a scan, it comes out as the
scan does and so does not trap. -/

namespace IlSplice

open Machine

/-- A step of reading in words. -/
abbrev Reading := ReaderT Slice (StateT Nat Machine)

namespace Reading

variable {α β : Type}

/-- Runs the reading from `position`, and forgets where it ends. -/
def evalAt (reading : Reading α) (s : Slice) (position : Nat) : Machine α := do
  let (a, _) ← reading s position
  return a

/-- Ends with a fault. -/
def fault (fault : Fault) : Reading α := fun _ _ => fail fault

/-- A computation that reads nothing. -/
def compute (result : Machine α) : Reading α := fun _ position =>
  result >>= fun a => return (a, position)

/-- The position of the next byte to read. -/
def position : Reading Nat := fun _ position => return (position, position)

/-- The number of bytes from the position to the end, or nothing behind the end. -/
def remaining : Reading Nat := fun s position => return (s.bytes.size - position, position)

/-- Moves to an absolute position. -/
def seek (target : Nat) : Reading Unit := fun s _ =>
  if s.bytes.size < target then fail .outOfBounds else return ((), target)

/-- Moves forward by `count` bytes. -/
def skip (count : Nat) : Reading Unit := fun s position => do
  let stop ← endWithin s.bytes.size position count
  return ((), stop)

/-- Moves forward to the next multiple of `alignment`. -/
def align (alignment : Nat) : Reading Unit := do
  let low ← compute (modulo (← position) alignment)
  let missing ← compute (sub alignment low)
  skip (← compute (modulo missing alignment))

/-- Reads an unsigned number of `width` bytes. -/
def uint (width : Nat) : Reading Nat := fun s position => s.numberAt width position

/-- Reads an unsigned 8-bit number. -/
def u8 : Reading UInt8 := return UInt8.ofNat (← uint 1)

/-- Reads an unsigned 16-bit number. -/
def u16 : Reading UInt16 := return UInt16.ofNat (← uint 2)

/-- Reads an unsigned 32-bit number. -/
def u32 : Reading UInt32 := return UInt32.ofNat (← uint 4)

/-- Reads a token. -/
def token : Reading Token := return ⟨← u32⟩

/-- Reads a signed number of `width` bytes. -/
def int (width : Nat) : Reading Int := return signedValue width (← uint width)

/-- Reads `count` bytes. -/
def bytes (count : Nat) : Reading Slice := fun s position => do
  let stop ← endWithin s.bytes.size position count
  let part ← s.part position stop
  return (part, stop)

/-- Repeats a reading, collecting its values in order. -/
def times (count : Nat) (reading : Reading α) : Reading (List α) :=
  collect count []
where
  /-- Repeats the reading, with the values so far in reverse. -/
  collect : Nat → List α → Reading (List α)
    | 0, found => return found.reverse
    | count + 1, found => do
      let value ← reading
      collect count (value :: found)

/-- Repeats a round until it says that it was the last one. A round that has not moved forward
would be repeated for ever, which is as bad as a trap. -/
def rounds (round : α → Reading (α × Bool)) (state : α) : Reading α := fun s start =>
  match round state s start with
  | .error stop => .error stop
  | .ok ((state, false), stop) => .ok (state, stop)
  | .ok ((state, true), stop) =>
    if start < stop ∧ start < s.bytes.size then rounds round state s stop else .error .trap
termination_by s start => s.bytes.size - start

/-- The outcome of a scan, as one of a reading. -/
def ofScan : EStateM.Result Fault Nat α → Machine (α × Nat)
  | .ok a stop => .ok (a, stop)
  | .error fault _ => fail fault

/-- From a position, a reading comes out as a scan does. -/
def Follows (reading : Reading α) (scan : Scan α) (s : Slice) (position : Nat) : Prop :=
  reading s position = ofScan (scan s.bytes position)

variable {s : Slice} {start : Nat}

theorem follows_pure (a : α) : Follows (pure a) (pure a) s start := rfl

theorem follows_fault (f : Fault) : Follows (fault f : Reading α) (throw f) s start := rfl

theorem follows_position : Follows position Scan.position s start := rfl

theorem follows_remaining : Follows remaining Scan.remaining s start := rfl

/-- What comes next may use where the scan was successful before it. -/
theorem Follows.bind {reading : Reading α} {scan : Scan α} {next : α → Reading β}
    {next' : α → Scan β} (hFirst : Follows reading scan s start)
    (hNext : ∀ a stop, scan s.bytes start = .ok a stop → Follows (next a) (next' a) s stop) :
    Follows (reading >>= next) (scan >>= next') s start := by
  have hRead : (reading >>= next) s start
      = ofScan (scan s.bytes start) >>= fun result => next result.1 s result.2 :=
    congrArg (· >>= fun result : α × Nat => next result.1 s result.2) hFirst
  rw [Follows, hRead]
  cases hScan : scan s.bytes start with
  | error f stop =>
      rw [Scan.bind_of_error hScan]
      rfl
  | ok a stop =>
      rw [Scan.bind_of_ok hScan]
      exact hNext a stop hScan

/-- A reading whose outcome is known is passed. -/
theorem bind_of_ok {first : Reading α} {a : α} {next : α → Reading β} {stop : Nat}
    (hFirst : first s start = .ok (a, stop)) : (first >>= next) s start = next a s stop := by
  change (first s start >>= fun result => next result.1 s result.2) = _
  rw [hFirst]
  rfl

theorem bind_of_fail {first : Reading α} {next : α → Reading β} {f : Fault}
    (hFirst : first s start = fail f) : (first >>= next) s start = fail f := by
  change (first s start >>= fun result => next result.1 s result.2) = _
  rw [hFirst]
  rfl

theorem compute_of_ok {result : Machine α} {a : α} (hResult : result = .ok a) :
    compute result s start = .ok (a, start) := by
  rw [compute, hResult]
  rfl

/-- What does not move is no step of the scan. -/
theorem Follows.of_ok {first : Reading α} {a : α} {next : α → Reading β} {scan : Scan β}
    (hFirst : first s start = .ok (a, start)) (hNext : Follows (next a) scan s start) :
    Follows (first >>= next) scan s start :=
  (bind_of_ok hFirst).trans hNext

/-- Computations that only the reading makes are left out of the comparison if they come out. -/
theorem Follows.compute_ok {result : Machine α} {a : α} {next : α → Reading β} {scan : Scan β}
    (hResult : result = .ok a) (hNext : Follows (next a) scan s start) :
    Follows (compute result >>= next) scan s start :=
  .of_ok (compute_of_ok hResult) hNext

/-- A computation that comes out as a check follows it. -/
theorem follows_check {result : Machine α} {checked : Except Fault α}
    (hResult : result = ofChecked checked) :
    Follows (compute result) (Scan.check checked) s start := by
  subst hResult
  cases checked <;> rfl

theorem Follows.evalAt {reading : Reading α} {scan : Scan α} (h : Follows reading scan s start) :
    reading.evalAt s start = ofChecked (scan.evalAt s.bytes start) := by
  unfold Reading.evalAt Scan.evalAt
  rw [h]
  cases scan s.bytes start <;> rfl

/-- A number is read in words exactly where it is there. -/
theorem follows_uint (width : Nat) : Follows (uint width) (Scan.uint width) s start := by
  unfold Follows uint Scan.uint
  rw [Slice.numberAt_eq]
  split <;> rfl

theorem follows_u8 : Follows u8 Scan.u8 s start :=
  (follows_uint 1).bind fun _ _ _ => follows_pure _

theorem follows_u16 : Follows u16 Scan.u16 s start :=
  (follows_uint 2).bind fun _ _ _ => follows_pure _

theorem follows_u32 : Follows u32 Scan.u32 s start :=
  (follows_uint 4).bind fun _ _ _ => follows_pure _

theorem follows_token : Follows token Scan.token s start :=
  follows_u32.bind fun _ _ _ => follows_pure _

theorem follows_int (width : Nat) : Follows (int width) (Scan.int width) s start :=
  (follows_uint width).bind fun _ _ _ => follows_pure _

/-- The end of what is skipped is worked out with a check, and so it cannot wrap around. -/
theorem follows_skip (count : Nat) : Follows (skip count) (Scan.skip count) s start := by
  unfold Follows skip Scan.skip
  rw [endWithin_eq s.size_lt]
  split <;> rfl

theorem follows_seek (target : Nat) : Follows (seek target) (Scan.seek target) s start := by
  unfold Follows seek Scan.seek
  by_cases h : target ≤ s.bytes.size
  · rw [if_neg (Nat.not_lt.2 h), if_pos h]
    rfl
  · rw [if_pos (Nat.lt_of_not_le h), if_neg h]
    rfl

/-- Going back and forward again leads to where a single move leads. -/
theorem follows_seek_skip {target count : Nat} {next : Unit → Reading α} {next' : Unit → Scan α}
    (hNext : ∀ stop, Follows (next ()) (next' ()) s stop) :
    Follows (seek target >>= fun _ => skip count >>= next)
      (Scan.seek (target + count) >>= next') s start := by
  by_cases hInside : target + count ≤ s.bytes.size
  · have hSkip : skip count s target = .ok ((), target + count) := by
      rw [skip, endWithin_eq s.size_lt, if_pos hInside]
      rfl
    rw [Follows, bind_of_ok (show seek target s start = .ok ((), target) from if_neg (by omega)),
      bind_of_ok hSkip, Scan.bind_of_ok (show Scan.seek _ _ start = _ from if_pos hInside)]
    exact hNext _
  · rw [Follows, Scan.bind_of_error (show Scan.seek _ _ start = _ from if_neg hInside)]
    by_cases hTarget : target ≤ s.bytes.size
    · have hSkip : skip count s target = fail .outOfBounds := by
        rw [skip, endWithin_eq s.size_lt, if_neg hInside]
        rfl
      rw [bind_of_ok (show seek target s start = .ok ((), target) from if_neg (by omega)),
        bind_of_fail hSkip]
      rfl
    · rw [bind_of_fail (show seek target s start = fail .outOfBounds from if_pos (by omega))]
      rfl

/-- The missing bytes are worked out by two remainders, which need an alignment that is not zero. -/
theorem follows_align {alignment : Nat} (hAlignment : 0 < alignment) :
    Follows (align alignment) (Scan.align 0 alignment) s start := by
  have hLow := Nat.mod_lt start hAlignment
  refine follows_position.bind fun here stop hHere => ?_
  cases hHere
  rw [Nat.sub_zero]
  exact .compute_ok (modulo_of_pos hAlignment) (.compute_ok (sub_of_le (Nat.le_of_lt hLow))
    (.compute_ok (modulo_of_pos hAlignment) (follows_skip _)))

theorem Follows.times {reading : Reading α} {scan : Scan α}
    (hEach : ∀ start, Follows reading scan s start) (count : Nat) :
    Follows (times count reading) (Scan.times count scan) s start := by
  suffices ∀ found start, Follows (times.collect reading count found)
      (Scan.times.collect scan count found) s start from this [] start
  induction count with
  | zero => exact fun _ _ => follows_pure _
  | succ count ih =>
      exact fun found start => (hEach start).bind fun value _ _ => ih (value :: found) _

/-- The bytes that are read lie in the data. -/
theorem bytes_eq_ok {count : Nat} (h : start + count ≤ s.bytes.size) :
    ∃ t : Slice, bytes count s start = .ok (t, start + count) ∧
      t.bytes = s.bytes.extract start (start + count) := by
  obtain ⟨t, hPart, hBytes⟩ := Slice.part_of_le (Nat.le_add_right start count) h
  refine ⟨t, ?_, hBytes⟩
  rw [bytes, endWithin_eq s.size_lt, if_pos h, ok_bind, hPart]
  rfl

end Reading

namespace Compressed

open Reading

/-- Reads a number in any of the three forms, with shifts and masks. -/
def read : Reading Nat := do
  let lead := (← u8).toNat
  if lead &&& 0x80 = 0 then return lead
  else if lead &&& 0xC0 = 0x80 then
    let low := (← u8).toNat
    let high ← compute (shiftLeft 32 (lead &&& 0x3F) 8)
    return high ||| low
  else if lead &&& 0xE0 = 0xC0 then
    let high := (← u8).toNat
    let middle := (← u8).toNat
    let low := (← u8).toNat
    let first ← compute (shiftLeft 32 (lead &&& 0x1F) 24)
    let second ← compute (shiftLeft 32 high 16)
    let third ← compute (shiftLeft 32 middle 8)
    return first ||| second ||| third ||| low
  else fault (.compressedLead lead)

/-- The top bits of the first byte tell the forms apart. -/
theorem form_masks : ∀ lead < 256, (lead &&& 0x80 = 0 ↔ lead < 0x80) ∧
    (0x80 ≤ lead → (lead &&& 0xC0 = 0x80 ↔ lead < 0xC0)) ∧
    (0xC0 ≤ lead → (lead &&& 0xE0 = 0xC0 ↔ lead < 0xE0)) := by
  decide +kernel

/-- The other bits of the first byte count. -/
theorem value_masks : ∀ lead < 256,
    (0x80 ≤ lead → lead < 0xC0 → lead &&& 0x3F = lead - 0x80) ∧
      (0xC0 ≤ lead → lead < 0xE0 → lead &&& 0x1F = lead - 0xC0) := by
  decide +kernel

/-- Compressed numbers of all three forms, and the fault for what is none of them. -/
theorem follows_read {s : Slice} {start : Nat} : Follows read scan s start := by
  refine follows_u8.bind fun lead _ _ => ?_
  obtain ⟨hOne, hTwo, hFour⟩ := form_masks _ lead.toNat_lt
  obtain ⟨hLowBits, hHighBits⟩ := value_masks _ lead.toNat_lt
  dsimp only
  by_cases h₁ : lead.toNat < 0x80
  · rw [if_pos (hOne.2 h₁), if_pos h₁]
    exact follows_pure _
  rw [if_neg (mt hOne.1 h₁), if_neg h₁]
  by_cases h₂ : lead.toNat < 0xC0
  · rw [if_pos ((hTwo (Nat.le_of_not_lt h₁)).2 h₂), if_pos h₂, hLowBits (Nat.le_of_not_lt h₁) h₂]
    refine follows_u8.bind fun low _ _ => ?_
    have hLow := low.toNat_lt
    refine .compute_ok (shiftLeft_of_lt (by decide) (by rw [Nat.shiftLeft_eq]; omega)) ?_
    rw [← Nat.shiftLeft_add_eq_or_of_lt hLow, Nat.shiftLeft_eq]
    exact follows_pure _
  rw [if_neg (mt (hTwo (Nat.le_of_not_lt h₁)).1 h₂), if_neg h₂]
  by_cases h₃ : lead.toNat < 0xE0
  · rw [if_pos ((hFour (Nat.le_of_not_lt h₂)).2 h₃), if_pos h₃, hHighBits (Nat.le_of_not_lt h₂) h₃]
    refine follows_u8.bind fun high _ _ => follows_u8.bind fun middle _ _ =>
      follows_u8.bind fun low _ _ => ?_
    have hHigh := high.toNat_lt
    have hMiddle := middle.toNat_lt
    have hLow := low.toNat_lt
    refine .compute_ok (shiftLeft_of_lt (by decide) (by rw [Nat.shiftLeft_eq]; omega))
      (.compute_ok (shiftLeft_of_lt (by decide) (by rw [Nat.shiftLeft_eq]; omega))
        (.compute_ok (shiftLeft_of_lt (by decide) (by rw [Nat.shiftLeft_eq]; omega)) ?_))
    rw [Nat.or_assoc, Nat.or_assoc, ← Nat.shiftLeft_add_eq_or_of_lt hLow,
      ← Nat.shiftLeft_add_eq_or_of_lt (show middle.toNat <<< 8 + low.toNat < 2 ^ 16 by
        rw [Nat.shiftLeft_eq]; omega),
      ← Nat.shiftLeft_add_eq_or_of_lt (show high.toNat <<< 16 + (middle.toNat <<< 8 + low.toNat)
        < 2 ^ 24 by simp only [Nat.shiftLeft_eq]; omega)]
    simp only [Nat.shiftLeft_eq, Nat.add_assoc]
    exact follows_pure _
  · rw [if_neg (mt (hFour (Nat.le_of_not_lt h₂)).1 h₃), if_neg h₃]
    exact follows_fault _

end Compressed

end IlSplice
