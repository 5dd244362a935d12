import IlSplice.Bytes

/-!
Reading data from front to back.

A scan looks at fixed data from a position, moves the position and yields a value, or fails and
leaves the position where it failed. A single number or a run of bytes is read as a whole or not
at all.
-/

namespace IlSplice

/-- A step of reading. -/
abbrev Scan := ReaderT Bytes (EStateM Fault Nat)

namespace Scan

/-- Runs the scan on `data` from `position`, and forgets where it ends. -/
def evalAt (scan : Scan α) (data : Bytes) (position : Nat) : Except Fault α :=
  match scan data position with
  | .ok value _ => .ok value
  | .error fault _ => .error fault

/-- A check that reads nothing. -/
def check (result : Except Fault α) : Scan α := fun _ position =>
  match result with
  | .ok value => .ok value position
  | .error fault => .error fault position

/-- The position of the next byte to read. -/
def position : Scan Nat := get

/-- The number of bytes from the position to the end. -/
def remaining : Scan Nat := fun data position => .ok (data.size - position) position

/-- Moves to an absolute position, at most to the end. -/
def seek (target : Nat) : Scan Unit := fun data position =>
  if target ≤ data.size then .ok () target else .error .outOfBounds position

/-- Moves forward by `count` bytes, at most to the end. -/
def skip (count : Nat) : Scan Unit := fun data position =>
  if position + count ≤ data.size then .ok () (position + count)
  else .error .outOfBounds position

/-- Moves forward to the next multiple of `alignment`, counted from `origin`. -/
def align (origin alignment : Nat) : Scan Unit := do
  let here ← position
  skip ((alignment - (here - origin) % alignment) % alignment)

/-- Reads an unsigned number of `width` bytes. -/
def uint (width : Nat) : Scan Nat := fun data position =>
  if position + width ≤ data.size then .ok (data.uintAt position width) (position + width)
  else .error .outOfBounds position

/-- Reads `count` bytes. -/
def bytes (count : Nat) : Scan Bytes := fun data position =>
  if position + count ≤ data.size then
    .ok (data.extract position (position + count)) (position + count)
  else .error .outOfBounds position

/-- Reads an unsigned 8-bit number. -/
def u8 : Scan UInt8 := return UInt8.ofNat (← uint 1)

/-- Reads an unsigned 16-bit number. -/
def u16 : Scan UInt16 := return UInt16.ofNat (← uint 2)

/-- Reads an unsigned 32-bit number. -/
def u32 : Scan UInt32 := return UInt32.ofNat (← uint 4)

/-- Reads an unsigned 64-bit number. -/
def u64 : Scan UInt64 := return UInt64.ofNat (← uint 8)

/-- Reads a signed number of `width` bytes. -/
def int (width : Nat) : Scan Int := return signedValue width (← uint width)

/-- Reads an index into a heap or table, which takes four bytes where `wide` and else two. -/
def index (wide : Bool) : Scan Nat := uint (if wide then 4 else 2)

/-- Reads a token. -/
def token : Scan Token := return ⟨← u32⟩

/-- Repeats a scan, collecting its values in order. -/
def times (count : Nat) (scan : Scan α) : Scan (List α) :=
  collect count []
where
  /-- Repeats the scan, with the values so far in reverse. -/
  collect : Nat → List α → Scan (List α)
    | 0, found => return found.reverse
    | count + 1, found => do
      let value ← scan
      collect count (value :: found)

/-- A scan that never moves backwards. -/
structure Forward (scan : Scan α) : Prop where
  le : ∀ {data start value stop}, scan data start = .ok value stop → start ≤ stop

theorem forward_pure (value : α) : Forward (pure value : Scan α) where
  le h := by cases h; exact Nat.le_refl _

theorem forward_throw (fault : Fault) : Forward (throw fault : Scan α) where
  le h := by cases h

theorem forward_position : Forward position where
  le h := by cases h; exact Nat.le_refl _

theorem forward_remaining : Forward remaining where
  le h := by cases h; exact Nat.le_refl _

/-- Two steps of reading succeed only if both do, the second from where the first ended. -/
theorem bind_eq_ok {scan : Scan α} {next : α → Scan β} {data : Bytes} {start stop : Nat} {b : β}
    (h : (scan >>= next) data start = .ok b stop) :
    ∃ a middle, scan data start = .ok a middle ∧ next a data middle = .ok b stop := by
  simp only [bind, ReaderT.bind, EStateM.bind] at h
  split at h
  · exact ⟨_, _, ‹_›, h⟩
  · cases h

/-- No step of reading moves back, and so the steps together do not either. -/
theorem Forward.bind {scan : Scan α} {next : α → Scan β} (hs : Forward scan)
    (hn : ∀ a, Forward (next a)) : Forward (scan >>= next) where
  le h := by
    obtain ⟨a, middle, h₁, h₂⟩ := bind_eq_ok h
    exact Nat.le_trans (hs.le h₁) ((hn a).le h₂)

theorem uint_eq_ok {width : Nat} {data : Bytes} {start value stop : Nat}
    (h : uint width data start = .ok value stop) :
    stop = start + width ∧ stop ≤ data.size ∧ value = data.uintAt start width := by
  unfold uint at h
  split at h
  · cases h
    exact ⟨rfl, ‹_›, rfl⟩
  · cases h

theorem forward_uint (width : Nat) : Forward (uint width) where
  le h := by
    have := (uint_eq_ok h).1
    omega

theorem forward_skip (count : Nat) : Forward (skip count) where
  le h := by
    unfold skip at h
    split at h
    · cases h
      exact Nat.le_add_right _ _
    · cases h

theorem forward_align (origin alignment : Nat) : Forward (align origin alignment) :=
  forward_position.bind fun _ => forward_skip _

theorem seek_eq_ok {target : Nat} {data : Bytes} {start stop : Nat}
    (h : seek target data start = .ok () stop) : stop = target ∧ stop ≤ data.size := by
  unfold seek at h
  split at h
  · cases h
    exact ⟨rfl, ‹_›⟩
  · cases h

theorem forward_u8 : Forward u8 := (forward_uint 1).bind fun _ => forward_pure _

theorem forward_u16 : Forward u16 := (forward_uint 2).bind fun _ => forward_pure _

theorem forward_u32 : Forward u32 := (forward_uint 4).bind fun _ => forward_pure _

theorem forward_int (width : Nat) : Forward (int width) :=
  (forward_uint width).bind fun _ => forward_pure _

theorem forward_token : Forward token := forward_u32.bind fun _ => forward_pure _

theorem forward_collect {scan : Scan α} (hs : Forward scan) (count : Nat) (found : List α) :
    Forward (times.collect scan count found) := by
  induction count generalizing found with
  | zero => exact forward_pure _
  | succ count ih => exact hs.bind fun value => ih (value :: found)

theorem forward_times {scan : Scan α} (hs : Forward scan) (count : Nat) :
    Forward (times count scan) :=
  forward_collect hs count []

end Scan

end IlSplice
