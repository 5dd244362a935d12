import IlSplice.Proofs.Body.Locality
import IlSplice.Proofs.Machine.Code

/-! Method bodies in words. The header says where the code ends, and only then the code is cut out
of the data; sections behind it may say that they are longer than they are. -/

namespace IlSplice

open Machine Reading

namespace Scan

variable {α β γ : Type}

/-- A check at the start does not read, and so it can be taken out of the reading. -/
theorem evalAt_check_bind (result : Except Fault α) (next : α → Scan β) (data : Bytes)
    (position : Nat) : (check result >>= next).evalAt data position
      = result >>= fun a => (next a).evalAt data position := by
  cases result <;> rfl

theorem evalAt_bind_check (scan : Scan α) (result : α → Except Fault β) (make : β → γ)
    (data : Bytes) (position : Nat) :
    (do return make (← check (result (← scan))) : Scan γ).evalAt data position
      = do return make (← result (← scan.evalAt data position)) := by
  unfold evalAt
  cases hScan : scan data position with
  | error fault stop =>
      rw [bind_of_error hScan]
      rfl
  | ok a stop =>
      rw [bind_of_ok hScan]
      exact evalAt_check_bind (result a) (fun b => pure (make b)) data stop

end Scan

variable {s : Slice} {start : Nat}

namespace Clause

/-- Reads a clause of a small or a fat section. -/
def read (fat : Bool) : Reading Clause := do
  let flags := ClauseFlags.ofNat (← uint (if fat then 4 else 2))
  let tryOffset ← uint (if fat then 4 else 2)
  let tryLength ← uint (if fat then 4 else 1)
  let handlerOffset ← uint (if fat then 4 else 2)
  let handlerLength ← uint (if fat then 4 else 1)
  let classOrFilter ← u32
  return ⟨flags, UInt32.ofNat tryOffset, UInt32.ofNat tryLength, UInt32.ofNat handlerOffset,
    UInt32.ofNat handlerLength, classOrFilter⟩

/-- Reads the size of a section; that of a fat section has three bytes. -/
def readSectionSize (fat : Bool) : Reading Nat :=
  if fat then do
    let low ← uint 2
    let high ← uint 1
    return (← compute (shiftLeft 32 high 16)) ||| low
  else do
    let size ← uint 1
    skip 2
    return size

/-- Reads one section, and whether another follows. -/
def readSection : Reading (List Clause × Bool) := do
  align 4
  let start ← position
  let flags := SectionFlags.ofByte (← u8)
  if !flags.exceptions then fault (.sectionKind flags)
  else
    let size ← readSectionSize flags.fat
    if size < 4 then fault (.sectionTooSmall size)
    else
      let room ← compute (sub size 4)
      let count ← compute (divide room (Clause.size flags.fat))
      let clauses ← times count (read flags.fat)
      seek start
      skip size
      return (clauses, flags.more)

/-- Reads one more section behind the clauses found so far. -/
def readNext (found : List Clause) : Reading (List Clause × Bool) := do
  let (clauses, more) ← readSection
  return (found ++ clauses, more)

/-- Reads a chain of sections that starts at an offset. -/
def readSections (s : Slice) (start : Nat) : Machine (List Clause) :=
  (do seek start; rounds readNext [] : Reading (List Clause)).evalAt s 0

/-- A clause of either form is read in words without a trap, since all its fields are words. -/
theorem follows_read (fat : Bool) : Follows (read fat) (scan fat) s start :=
  (follows_uint _).bind fun _ _ _ => (follows_uint _).bind fun _ _ _ =>
    (follows_uint _).bind fun _ _ _ => (follows_uint _).bind fun _ _ _ =>
      (follows_uint _).bind fun _ _ _ => follows_u32.bind fun _ _ _ => follows_pure _

theorem follows_readSectionSize (fat : Bool) :
    Follows (readSectionSize fat) (scanSectionSize fat) s start := by
  cases fat with
  | false =>
      exact (follows_uint 1).bind fun _ _ _ => (follows_skip 2).bind fun _ _ _ => follows_pure _
  | true =>
      change (uint 2 >>= fun low => uint 1 >>= fun high => compute (shiftLeft 32 high 16) >>=
        fun top => pure (top ||| low) : Reading Nat) s start = ofScan (Scan.uint 3 s.bytes start)
      by_cases hInside : start + 3 ≤ s.bytes.size
      · have hLow : s.bytes.uintAt start 2 < 2 ^ 16 := Bytes.uintAt_lt s.bytes start 2
        have hHigh : s.bytes.uintAt (start + 2) 1 < 2 ^ 8 := Bytes.uintAt_lt s.bytes (start + 2) 1
        have hValue : s.bytes.uintAt start 3
            = s.bytes.uintAt (start + 2) 1 * 2 ^ 16 + s.bytes.uintAt start 2 := by
          simp only [Bytes.uintAt, Nat.add_assoc, Nat.reduceAdd]
          omega
        rw [bind_of_ok (Slice.numberAt_of_le (by omega)),
          bind_of_ok (Slice.numberAt_of_le (by omega)), bind_of_ok (compute_of_ok
            (shiftLeft_of_lt (by decide) (by rw [Nat.shiftLeft_eq]; omega))),
          ← Nat.shiftLeft_add_eq_or_of_lt hLow, Nat.shiftLeft_eq, ← hValue, Scan.uint,
          if_pos hInside]
        rfl
      · rw [Scan.uint, if_neg hInside]
        by_cases hLow : start + 2 ≤ s.bytes.size
        · rw [bind_of_ok (Slice.numberAt_of_le hLow),
            bind_of_fail ((Slice.numberAt_eq ..).trans (if_neg (by omega)))]
          rfl
        · rw [bind_of_fail ((Slice.numberAt_eq ..).trans (if_neg hLow))]
          rfl

/-- The size of a section comes from the data. Only the number of its clauses is worked out from it,
and each of them is checked to be there when it is read. -/
theorem follows_readSection : Follows readSection (scanSection 0) s start := by
  refine (follows_align (by decide)).bind fun _ aligned _ =>
    follows_position.bind fun here _ hHere => ?_
  cases hHere
  refine follows_u8.bind fun lead _ _ => ?_
  dsimp only
  split
  · exact follows_fault _
  refine (follows_readSectionSize _).bind fun size middle _ => ?_
  split
  · exact follows_fault _
  rename_i hLarge
  have hPos : 0 < Clause.size (SectionFlags.ofByte lead).fat := by
    cases (SectionFlags.ofByte lead).fat <;> decide
  refine .compute_ok (sub_of_le (by omega)) (.compute_ok (divide_of_pos hPos)
    ((Follows.times (fun _ => follows_read _) _).bind fun clauses stop _ => ?_))
  exact follows_seek_skip fun _ => follows_pure _

theorem readNext_of_ok {found clauses : List Clause} {more : Bool} {stop : Nat}
    (hScan : scanSection 0 s.bytes start = .ok (clauses, more) stop) :
    readNext found s start = .ok ((found ++ clauses, more), stop) := by
  rw [readNext, bind_of_ok (follows_readSection.trans (congrArg ofScan hScan))]
  rfl

theorem readNext_of_error {found : List Clause} {fault : Fault} {stop : Nat}
    (hScan : scanSection 0 s.bytes start = .error fault stop) :
    readNext found s start = fail fault := by
  rw [readNext, bind_of_fail (follows_readSection.trans (congrArg ofScan hScan))]

/-- By induction along the walk. Every round moves forward, and so there is no endless walk in words
either. -/
theorem follows_rounds (found : List Clause) :
    Follows (rounds readNext found) (scanSections 0 found) s start := by
  unfold Follows
  fun_induction scanSections 0 found s.bytes start with
  | case1 found start fault stop hSection =>
      rw [rounds, readNext_of_error hSection]
      rfl
  | case2 found start clauses stop hSection =>
      rw [rounds, readNext_of_ok hSection]
      rfl
  | case3 found start clauses stop hSection hBounds ih =>
      rw [rounds, readNext_of_ok hSection]
      exact (if_pos ⟨hBounds.1, by omega⟩).trans ih

/-- A chain of sections can be read at any offset of any data without a trap. -/
theorem readSections_eq (s : Slice) (start : Nat) :
    readSections s start = ofChecked (ofSections s.bytes start) :=
  Follows.evalAt ((follows_seek start).bind fun _ _ _ => follows_rounds [])

/-- Sections may as well be read from where the first one is aligned to. -/
theorem readSections_alignUp (s : Slice) (stop : Nat) :
    readSections s (alignUp stop 4) = ofChecked ((scanSections 0 []).evalAt s.bytes stop) := by
  have hTwice : alignUp (alignUp stop 4) 4 = alignUp stop 4 :=
    alignUp_of_dvd (by decide) (dvd_alignUp stop 4)
  rw [readSections_eq, ofSections, Scan.evalAt, Scan.evalAt]
  by_cases hInside : alignUp stop 4 ≤ s.bytes.size
  · have hSection : scanSection 0 s.bytes (alignUp stop 4) = scanSection 0 s.bytes stop := by
      have hAlign : ∀ start, alignUp start 4 = alignUp stop 4 →
          Scan.align 0 4 s.bytes start = .ok () (alignUp stop 4) := fun start hStart =>
        (Scan.align_eq_ok (Nat.zero_le start)).2
          ⟨by rw [Nat.sub_zero, hStart, Nat.zero_add], hInside⟩
      rw [scanSection, Scan.bind_of_ok (hAlign _ hTwice), Scan.bind_of_ok (hAlign _ rfl)]
    rw [Scan.bind_of_ok (show Scan.seek _ s.bytes 0 = _ from if_pos hInside), scanSections_eq,
      hSection, ← scanSections_eq]
  · have hSection : scanSection 0 s.bytes stop = .error .outOfBounds stop :=
      scanSection_of_outside (Nat.zero_le stop) (by rwa [Nat.sub_zero, Nat.zero_add])
    rw [Scan.bind_of_error (show Scan.seek _ s.bytes 0 = _ from if_neg hInside),
      scanSections_of_error hSection]

end Clause

namespace MethodHeader

/-- Reads a fat header, whose size is given in words. -/
def readFat : Reading MethodHeader := do
  let flags ← uint 2
  let maxStack ← u16
  let codeSize ← uint 4
  let locals ← token
  let words ← compute (shiftRight 16 flags 12)
  let size ← compute (fit 64 (words * 4))
  if size = fatSize then
    return ⟨true, size, codeSize, maxStack, locals, flags.testBit 4, flags.testBit 3⟩
  else fault (.fatHeaderSize size)

/-- Reads the header whose first byte is given; a tiny one has the size of the code in it. -/
def readFormat (s : Slice) (lead : Nat) : Machine MethodHeader :=
  if lead &&& 3 = 2 then do
    let codeSize ← shiftRight 8 lead 2
    return ⟨false, 1, codeSize, tinyMaxStack, .null, false, false⟩
  else if lead &&& 3 = 3 then readFat.evalAt s 0
  else fail (.headerFormat lead)

/-- Reads the header at the start of the data and checks that the code behind it is there. -/
def read (s : Slice) : Machine MethodHeader :=
  if s.bytes.size = 0 then fail .emptyBody
  else do
    let header ← readFormat s (← s.number 1)
    let _ ← endWithin s.bytes.size header.size header.codeSize
    return header

/-- The size of a fat header has four bits, so that four times as much is a small word. -/
theorem follows_readFat : Follows readFat scanFat s start := by
  refine (follows_uint 2).bind fun flags middle hFlags => follows_u16.bind fun _ _ _ =>
    (follows_uint 4).bind fun _ _ _ => follows_token.bind fun _ _ _ => ?_
  obtain ⟨-, -, rfl⟩ := Scan.uint_eq_ok hFlags
  have hRange : s.bytes.uintAt start 2 < 2 ^ 16 := Bytes.uintAt_lt s.bytes start 2
  refine .compute_ok (shiftRight_of_lt (by decide)) (.compute_ok (fit_of_lt ?_) ?_)
  · rw [Nat.shiftRight_eq_div_pow]
    omega
  · dsimp only
    split
    · exact follows_pure _
    · exact follows_fault _

/-- A header that was read from the start ends behind its own size. -/
theorem bounds_of_scanFormat {data : Bytes} {lead stop : Nat} {header : MethodHeader}
    (hLead : lead < 2 ^ 8) (hScan : scanFormat lead data 0 = .ok header stop) :
    stop = header.size ∧ header.size ≤ fatSize ∧ header.codeSize < 2 ^ 32 := by
  unfold scanFormat at hScan
  split at hScan
  · obtain ⟨_, middle, hSkip, hPure⟩ := Scan.bind_eq_ok hScan
    obtain ⟨rfl, rfl⟩ := Scan.pure_eq_ok.1 hPure
    exact ⟨(Scan.skip_eq_ok hSkip).1, Nat.le_of_ble_eq_true rfl, show lead / 4 < 2 ^ 32 by omega⟩
  split at hScan
  · obtain ⟨flags, _, hFlags, hScan⟩ := Scan.bind_eq_ok hScan
    obtain ⟨maxStack, _, hStack, hScan⟩ := Scan.bind_eq_ok hScan
    obtain ⟨codeSize, _, hCode, hScan⟩ := Scan.bind_eq_ok hScan
    obtain ⟨_, _, hLocals, hScan⟩ := Scan.bind_eq_ok hScan
    obtain ⟨_, _, hValue, hPure⟩ := Scan.bind_eq_ok hLocals
    obtain ⟨rfl, -, -⟩ := Scan.uint_eq_ok hFlags
    obtain ⟨rfl, -, -⟩ := Scan.uint_map_eq_ok hStack
    obtain ⟨rfl, -, rfl⟩ := Scan.uint_eq_ok hCode
    obtain ⟨rfl, -, -⟩ := Scan.uint_map_eq_ok hValue
    obtain ⟨-, rfl⟩ := Scan.pure_eq_ok.1 hPure
    have hRange := Bytes.uintAt_lt data (0 + 2 + 2) 4
    dsimp only at hScan
    split at hScan
    · rename_i hSize
      obtain ⟨rfl, rfl⟩ := Scan.pure_eq_ok.1 hScan
      exact ⟨hSize.symm, Nat.le_of_eq hSize, hRange⟩
    · cases hScan
  · cases hScan

/-- Either form of the header, once its first byte was looked at. -/
theorem readFormat_eq (hSize : 0 < s.bytes.size) (lead : Nat) :
    readFormat s lead = ofChecked ((scanFormat lead).evalAt s.bytes 0) := by
  rw [readFormat, show lead &&& 3 = lead % 4 from Nat.and_two_pow_sub_one_eq_mod lead 2, scanFormat]
  split
  · rw [shiftRight_of_lt (by decide), Nat.shiftRight_eq_div_pow, Scan.evalAt, scanTiny,
      Scan.bind_of_ok (Scan.skip_of_le (by omega))]
    rfl
  · split
    · exact follows_readFat.evalAt
    · rfl

/-- Accepts a header whose code ends inside the data. -/
def scanCode (header : MethodHeader) : Scan MethodHeader := fun data stop =>
  if stop + header.codeSize ≤ data.size then .ok header stop else .error .outOfBounds stop

/-- A header is one of its forms with the code behind it. In words the same is done in other steps.
-/
theorem scan_of_lead {data : Bytes} {lead : UInt8} (hLead : data[start]? = some lead) :
    scan data start = (scanFormat lead.toNat >>= scanCode) data start := by
  rw [scan, hLead]
  dsimp only
  rw [← scanFormat]
  cases hHeader : scanFormat lead.toNat data start with
  | error fault stop => rw [Scan.bind_of_error hHeader]
  | ok h stop =>
      rw [Scan.bind_of_ok hHeader]
      rfl

/-- Whatever the bytes are, reading a header in words ends as reading it does. -/
theorem read_eq (s : Slice) : read s = ofChecked (scan.evalAt s.bytes 0) := by
  unfold read
  by_cases hEmpty : s.bytes.size = 0
  · rw [if_pos hEmpty, Scan.evalAt, scan, Array.getElem?_eq_none (Nat.le_of_eq hEmpty)]
    rfl
  have hFirst : s.bytes[0]? = some s.bytes[0] := Array.getElem?_eq_getElem (by omega)
  have hLead : s.bytes.uintAt 0 1 = s.bytes[0].toNat := by
    simp [Bytes.uintAt, hFirst]
  rw [if_neg hEmpty, Slice.number_of_le (by omega), ok_bind, hLead, readFormat_eq (by omega),
    Scan.evalAt, Scan.evalAt, scan_of_lead hFirst]
  cases hFormat : scanFormat s.bytes[0].toNat s.bytes 0 with
  | error fault stop =>
      rw [Scan.bind_of_error hFormat]
      rfl
  | ok header stop =>
      obtain ⟨rfl, -, -⟩ := bounds_of_scanFormat (UInt8.toNat_lt _) hFormat
      rw [Scan.bind_of_ok hFormat, scanCode]
      dsimp only
      rw [ofChecked_ok, ok_bind, endWithin_eq s.size_lt]
      split <;> rfl

end MethodHeader

namespace Handler

/-- The instruction behind `length` bytes from an offset, in 32 bits. -/
def readEnd (d : Decoded) (offset length : Nat) : Machine (Option Handle) :=
  match checkedAdd 32 offset length with
  | none => fail .clauseOverflow
  | some stop => ofChecked (d.instructionAt stop)

/-- The handler that a clause stands for. Instructions are looked up by their offsets. -/
def read (d : Decoded) (c : Clause) : Machine Handler := do
  let filterStart ← ofChecked (filterOf d c)
  let tryStart ← ofChecked (startAt d c.tryOffset.toNat)
  let tryEnd ← readEnd d c.tryOffset.toNat c.tryLength.toNat
  let handlerStart ← ofChecked (startAt d c.handlerOffset.toNat)
  let handlerEnd ← readEnd d c.handlerOffset.toNat c.handlerLength.toNat
  return ⟨c.flags, tryStart, tryEnd, handlerStart, handlerEnd, filterStart,
    if c.flags.isCatch then some ⟨c.classOrFilter⟩ else none⟩

/-- The end of a range is the sum of two numbers of the clause. A sum of more than 32 bits is a
fault of its own in either way of reading. -/
theorem readEnd_eq (d : Decoded) (offset length : Nat) :
    readEnd d offset length = ofChecked (endAt d offset length) := by
  unfold readEnd checkedAdd endAt
  rw [show (0x100000000 : Nat) = 2 ^ 32 from rfl]
  split_ifs <;> rfl

/-- A handler is looked up by the numbers of its clause, none of which has to be right. -/
theorem read_eq (d : Decoded) (c : Clause) : read d c = ofChecked (ofClause d c) := by
  rw [ofClause_eq, read]
  refine bind_ofChecked fun _ _ => bind_ofChecked fun _ _ => ?_
  rw [readEnd_eq]
  refine bind_ofChecked fun _ _ => bind_ofChecked fun _ _ => ?_
  rw [readEnd_eq]
  exact bind_ofChecked fun _ _ => rfl

end Handler

namespace MethodBody

/-- Reads the body at the start of the data. -/
def read (s : Slice) (resolver : Resolver) : Machine MethodBody := do
  let header ← MethodHeader.read s
  let stop ← fit 64 (header.size + header.codeSize)
  let code ← s.part header.size stop
  let decoded ← Decoded.read code resolver
  let clauses ← if header.moreSections then do Clause.readSections s (← Machine.alignUp stop 4)
    else pure []
  let handlers ← clauses.mapM (Handler.read decoded)
  return ⟨header.maxStack, header.locals, header.initLocals, decoded.listing, handlers⟩

/-- Behind the header and the code, only the sections move on. -/
theorem evalAt_scan {resolver : Resolver} {data code : Bytes} {header : MethodHeader}
    {middle stop : Nat} (hHeader : MethodHeader.scan data start = .ok header middle)
    (hCode : Scan.bytes header.codeSize data middle = .ok code stop) :
    (scan resolver).evalAt data start = do
      let decoded ← Decoded.ofCode code resolver
      let clauses ← (scanClauses header start).evalAt data stop
      let handlers ← clauses.mapM (Handler.ofClause decoded)
      return ⟨header.maxStack, header.locals, header.initLocals, decoded.listing, handlers⟩ := by
  have hScan : (scan resolver).evalAt data start = (do
      let decoded ← Scan.check (Decoded.ofCode code resolver)
      let clauses ← scanClauses header start
      let handlers ← Scan.check (clauses.mapM (Handler.ofClause decoded))
      return ⟨header.maxStack, header.locals, header.initLocals, decoded.listing, handlers⟩
        : Scan MethodBody).evalAt data stop := by
    rw [Scan.evalAt, scan,
      Scan.bind_of_ok (show Scan.position data start = .ok start start from rfl),
      Scan.bind_of_ok hHeader, Scan.bind_of_ok hCode, scanClauses]
    cases header.moreSections <;> rfl
  rw [hScan, Scan.evalAt_check_bind]
  simp only [Scan.evalAt_bind_check]

/-- Whatever the bytes are, reading a body in words ends as reading it does. -/
theorem read_eq (s : Slice) (resolver : Resolver) :
    read s resolver = ofChecked ((scan resolver).evalAt s.bytes 0) := by
  rw [read, MethodHeader.read_eq]
  have hSize := s.size_lt
  cases hHeader : MethodHeader.scan s.bytes 0 with
  | error fault stop =>
      rw [Scan.evalAt, Scan.evalAt, scan, hHeader,
        Scan.bind_of_ok (show Scan.position s.bytes 0 = .ok 0 0 from rfl),
        Scan.bind_of_error hHeader]
      rfl
  | ok header middle =>
      obtain ⟨lead, -, hFormat, hInside⟩ := MethodHeader.scan_eq_ok.1 hHeader
      obtain ⟨rfl, hShort, hCode⟩ := MethodHeader.bounds_of_scanFormat lead.toNat_lt hFormat
      obtain ⟨code, hPart, hBytes⟩ := Slice.part_of_le (Nat.le_add_right _ _) hInside
      have hCodeSize : code.bytes.size < 2 ^ 32 := by
        rw [hBytes, Array.size_extract]
        omega
      have hScan : Scan.bytes header.codeSize s.bytes header.size
          = .ok code.bytes (header.size + header.codeSize) := hBytes ▸ if_pos hInside
      rw [show MethodHeader.scan.evalAt s.bytes 0 = .ok header by rw [Scan.evalAt, hHeader],
        ofChecked_ok, ok_bind, fit_of_lt (by omega), ok_bind, hPart, ok_bind,
        Decoded.read_eq hCodeSize, evalAt_scan hHeader hScan]
      refine bind_ofChecked fun decoded _ => ?_
      have hHandlers : ∀ clauses : List Clause, (do
          let handlers ← clauses.mapM (Handler.read decoded)
          return ⟨header.maxStack, header.locals, header.initLocals, decoded.listing, handlers⟩)
          = ofChecked (do
            let handlers ← clauses.mapM (Handler.ofClause decoded)
            return (⟨header.maxStack, header.locals, header.initLocals, decoded.listing, handlers⟩ :
              MethodBody)) := fun clauses => by
        rw [mapM_ofChecked (Handler.read_eq decoded)]
        exact bind_ofChecked fun _ _ => rfl
      unfold scanClauses
      split
      · rw [alignUp_eq (by decide) (by omega), ok_bind, Clause.readSections_alignUp]
        exact bind_ofChecked fun clauses _ => hHandlers clauses
      · exact hHandlers []

end MethodBody

end IlSplice
