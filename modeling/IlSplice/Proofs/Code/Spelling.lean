import IlSplice.Proofs.Code.Opcode

/-! How instructions are spelt. Reading yields an instruction exactly if the bytes are its opcode
with a complete operand of the right kind behind it. -/

namespace IlSplice

namespace Bytes

/-- Any bytes are the form of the number that they are read as. -/
theorem holds_uintAt {data : Bytes} {offset width : Nat} (hInside : offset + width ≤ data.size) :
    data.Holds offset (leBytes width (data.uintAt offset width)) := by
  induction width generalizing offset with
  | zero => exact holds_nil.2 hInside
  | succ width ih =>
      have hByte := Array.getElem?_eq_getElem (show offset < data.size by omega)
      have hLow := (data[offset]).toNat_lt
      rw [uintAt, leBytes, hByte, Option.getD_some]
      refine holds_cons.2 ⟨?_, ?_⟩
      · rw [hByte, Option.some.injEq, ← UInt8.toNat_inj, UInt8.toNat_ofNat']
        omega
      · rw [show (data[offset].toNat + 256 * data.uintAt (offset + 1) width) / 256
          = data.uintAt (offset + 1) width by omega]
        exact ih (by omega)

/-- Of two runs of bytes at one offset the shorter one begins the longer one. -/
theorem Holds.eq_append {data : Bytes} {offset : Nat} {bs chunk : List UInt8}
    (h : data.Holds offset bs) (hChunk : data.Holds offset chunk)
    (hLength : chunk.length ≤ bs.length) : bs = chunk ++ bs.drop chunk.length := by
  have hTake : bs.take chunk.length = chunk := by
    refine List.ext_getElem? fun i => ?_
    by_cases hi : i < chunk.length
    · rw [List.getElem?_take_of_lt hi, ← h.2 i (by omega), hChunk.2 i hi]
    · rw [List.getElem?_eq_none (by simp; omega), List.getElem?_eq_none (by omega)]
  conv_lhs => rw [← List.take_append_drop chunk.length bs, hTake]

end Bytes

@[simp] theorem length_leSigned (width : Nat) (n : Int) : (leSigned width n).length = width :=
  length_leBytes _ _

theorem leSigned_signedValue {width n : Nat} (hRange : n < byteRange width) :
    leSigned width (signedValue width n) = leBytes width n := by
  rw [leSigned, signedValue, Int.bmod_emod, ← Int.natCast_emod, Int.toNat_natCast,
    Nat.mod_eq_of_lt hRange]

/-- The numbers that have a place in two's complement of a width. -/
def InRange (width : Nat) (n : Int) : Prop :=
  -(byteRange width : Int) ≤ 2 * n ∧ 2 * n < byteRange width

theorem inRange_signedValue {width n : Nat} (hWidth : 0 < width) (hRange : n < byteRange width) :
    InRange width (signedValue width n) := by
  obtain ⟨rest, rfl⟩ : ∃ rest, width = rest + 1 := ⟨width - 1, by omega⟩
  have hMod : (n : Int) % (byteRange (rest + 1) : Int) = n :=
    Int.emod_eq_of_lt (by omega) (by omega)
  rw [InRange, signedValue, Int.bmod_def, hMod]
  simp only [byteRange] at *
  constructor <;> split_ifs <;> omega

namespace Scan

variable {code : Bytes} {start stop width n : Nat}

theorem map_eq_ok {scan : Scan α} {f : α → β} {b : β} :
    (scan >>= fun a => pure (f a)) code start = .ok b stop ↔
      ∃ a, scan code start = .ok a stop ∧ b = f a := by
  constructor
  · intro hScan
    obtain ⟨a, middle, hFirst, hPure⟩ := bind_eq_ok hScan
    obtain ⟨rfl, rfl⟩ := pure_eq_ok.1 hPure
    exact ⟨a, hFirst, rfl⟩
  · rintro ⟨a, hFirst, rfl⟩
    rw [bind_of_ok hFirst]
    rfl

/-- Reading a number and holding its form are the same. In both directions nothing is left open. -/
theorem uint_eq_ok_iff : uint width code start = .ok n stop ↔
    code.Holds start (leBytes width n) ∧ stop = start + width ∧ n < byteRange width := by
  constructor
  · intro hScan
    obtain ⟨rfl, hInside, rfl⟩ := uint_eq_ok hScan
    exact ⟨Bytes.holds_uintAt hInside, rfl, Bytes.uintAt_lt ..⟩
  · rintro ⟨hHolds, rfl, hRange⟩
    exact hHolds.scan_leBytes hRange

theorem int_eq_ok_iff {n : Int} (hWidth : 0 < width) : int width code start = .ok n stop ↔
    code.Holds start (leSigned width n) ∧ stop = start + width ∧ InRange width n := by
  constructor
  · intro hScan
    obtain ⟨value, hValue, rfl⟩ := map_eq_ok.1 hScan
    obtain ⟨hHolds, rfl, hRange⟩ := uint_eq_ok_iff.1 hValue
    rw [leSigned_signedValue hRange]
    exact ⟨hHolds, rfl, inRange_signedValue hWidth hRange⟩
  · rintro ⟨hHolds, rfl, hLow, hHigh⟩
    exact hHolds.scan_leSigned hLow hHigh

theorem token_eq_ok_iff {t : Token} : token code start = .ok t stop ↔
    code.Holds start (leBytes 4 t.value.toNat) ∧ stop = start + 4 := by
  constructor
  · intro hScan
    obtain ⟨value, hValue, rfl⟩ := map_eq_ok.1 hScan
    obtain ⟨n, hNumber, rfl⟩ := map_eq_ok.1 hValue
    obtain ⟨hHolds, rfl, hRange⟩ := uint_eq_ok_iff.1 hNumber
    refine ⟨?_, rfl⟩
    rwa [UInt32.toNat_ofNat_of_lt' hRange]
  · rintro ⟨hHolds, rfl⟩
    exact hHolds.scan_token

/-- What is read one after the other stands one behind the other. -/
theorem forall₂_of_times {scan : Scan α} {R : α → List UInt8 → Prop} {count : Nat}
    {values : List α} (hScan : ∀ start a stop, scan code start = .ok a stop →
      ∃ chunk, code.Holds start chunk ∧ stop = start + chunk.length ∧ R a chunk)
    (hInside : start ≤ code.size) (hTimes : times count scan code start = .ok values stop) :
    values.length = count ∧ ∃ chunks, List.Forall₂ R values chunks ∧
      code.Holds start chunks.flatten ∧ stop = start + chunks.flatten.length := by
  suffices ∀ found, times.collect scan count found code start = .ok values stop →
      ∃ later, values = found.reverse ++ later ∧ later.length = count ∧ ∃ chunks,
        List.Forall₂ R later chunks ∧ code.Holds start chunks.flatten ∧
          stop = start + chunks.flatten.length by
    obtain ⟨later, rfl, hRest⟩ := this [] hTimes
    exact hRest
  clear hTimes
  induction count generalizing start with
  | zero =>
      intro found hCollect
      obtain ⟨rfl, rfl⟩ := pure_eq_ok.1 hCollect
      exact ⟨[], by simp, rfl, [], .nil, Bytes.holds_nil.2 hInside, rfl⟩
  | succ count ih =>
      intro found hCollect
      obtain ⟨a, middle, hFirst, hRest⟩ := bind_eq_ok hCollect
      obtain ⟨chunk, hChunk, rfl, ha⟩ := hScan _ _ _ hFirst
      obtain ⟨later, rfl, rfl, chunks, hEach, hHolds, rfl⟩ := ih hChunk.1 (a :: found) hRest
      refine ⟨a :: later, by simp, rfl, chunk :: chunks, .cons ha hEach, ?_, ?_⟩
      · exact Bytes.holds_append.2 ⟨hChunk, hHolds⟩
      · rw [List.flatten_cons, List.length_append, Nat.add_assoc]

end Scan

/-- The bytes stand for the operand, which is of the kind, if the instruction ends at `stop`. -/
def RawOperand.Spelt (stop : Nat) (bs : List UInt8) (operand : RawOperand) : OperandKind → Prop
  | .none => bs = [] ∧ operand = .plain .none
  | .int8 => ∃ value : Int8, bs = leSigned 1 value.toInt ∧ operand = .plain (.int8 value)
  | .uint8 => ∃ value : UInt8, bs = leBytes 1 value.toNat ∧ operand = .plain (.uint8 value)
  | .uint16 => ∃ value : UInt16, bs = leBytes 2 value.toNat ∧ operand = .plain (.uint16 value)
  | .int32 => ∃ value : Int32, bs = leSigned 4 value.toInt ∧ operand = .plain (.int32 value)
  | .int64 => ∃ value : Int64, bs = leSigned 8 value.toInt ∧ operand = .plain (.int64 value)
  | .float32 => ∃ bits : UInt32, bs = leBytes 4 bits.toNat ∧ operand = .plain (.float32 bits)
  | .float64 => ∃ bits : UInt64, bs = leBytes 8 bits.toNat ∧ operand = .plain (.float64 bits)
  | .token => ∃ t : Token, bs = leBytes 4 t.value.toNat ∧ operand = .plain (.token t)
  | .method => ∃ t : Token, bs = leBytes 4 t.value.toNat ∧ operand = .method t
  | .literal => ∃ t : Token, bs = leBytes 4 t.value.toNat ∧ operand = .literal t
  | .shortBranch => ∃ displacement : Int8,
      bs = leSigned 1 displacement.toInt ∧ operand = .target (stop + displacement.toInt)
  | .branch => ∃ displacement : Int32,
      bs = leSigned 4 displacement.toInt ∧ operand = .target (stop + displacement.toInt)
  | .switch => ∃ displacements : List Int32, displacements.length < 0x100000000 ∧
      bs = leBytes 4 displacements.length ++ (displacements.map (leSigned 4 ·.toInt)).flatten ∧
      operand = .switch (displacements.map fun displacement => stop + displacement.toInt)

/-- Reading an operand of the kind yields what the bytes there stand for. -/
def OperandKind.Reads (kind : OperandKind) : Prop :=
  ∀ (code : Bytes) (position : Nat) (operand : RawOperand) (stop : Nat), position ≤ code.size →
    (RawOperand.scan kind code position = .ok operand stop ↔
      ∃ bs, code.Holds position bs ∧ stop = position + bs.length ∧
        RawOperand.Spelt stop bs operand kind)

namespace RawOperand

variable {kind : OperandKind} {width : Nat} {α : Type}

/-- The kinds of operands with an unsigned number differ in their width and type only, and so this
is shown once for all of them. The last three conditions say that the type has exactly the numbers
of that width. -/
theorem reads_unsigned {f : Nat → α} {g : α → Nat} (wrap : α → RawOperand)
    (hForm : scan kind = Scan.uint width >>= fun n => pure (wrap (f n)))
    (hSpelt : ∀ stop bs operand, Spelt stop bs operand kind ↔
      ∃ value, bs = leBytes width (g value) ∧ operand = wrap value)
    (hForth : ∀ n < byteRange width, g (f n) = n) (hBack : ∀ value, f (g value) = value)
    (hRange : ∀ value, g value < byteRange width) : kind.Reads := by
  intro code position operand stop _
  rw [hForm, Scan.map_eq_ok]
  simp only [Scan.uint_eq_ok_iff, hSpelt]
  constructor
  · rintro ⟨n, ⟨hHolds, rfl, hn⟩, rfl⟩
    exact ⟨_, hHolds, by rw [length_leBytes], f n, by rw [hForth n hn], rfl⟩
  · rintro ⟨_, hHolds, rfl, value, rfl, rfl⟩
    exact ⟨g value, ⟨hHolds, by rw [length_leBytes], hRange value⟩, by rw [hBack]⟩

theorem reads_signed {f : Int → α} {g : α → Int} (wrap : α → RawOperand) (hWidth : 0 < width)
    (hForm : scan kind = Scan.int width >>= fun n => pure (wrap (f n)))
    (hSpelt : ∀ stop bs operand, Spelt stop bs operand kind ↔
      ∃ value, bs = leSigned width (g value) ∧ operand = wrap value)
    (hForth : ∀ n, InRange width n → g (f n) = n) (hBack : ∀ value, f (g value) = value)
    (hRange : ∀ value, InRange width (g value)) : kind.Reads := by
  intro code position operand stop _
  rw [hForm, Scan.map_eq_ok]
  simp only [Scan.int_eq_ok_iff hWidth, hSpelt]
  constructor
  · rintro ⟨n, ⟨hHolds, rfl, hn⟩, rfl⟩
    exact ⟨_, hHolds, by rw [length_leSigned], f n, by rw [hForth n hn], rfl⟩
  · rintro ⟨_, hHolds, rfl, value, rfl, rfl⟩
    exact ⟨g value, ⟨hHolds, by rw [length_leSigned], hRange value⟩, by rw [hBack]⟩

/-- The same for the kinds with a token. -/
theorem reads_token (wrap : Token → RawOperand)
    (hForm : scan kind = Scan.token >>= fun t => pure (wrap t))
    (hSpelt : ∀ stop bs operand, Spelt stop bs operand kind ↔
      ∃ t : Token, bs = leBytes 4 t.value.toNat ∧ operand = wrap t) : kind.Reads := by
  intro code position operand stop _
  rw [hForm, Scan.map_eq_ok]
  simp only [Scan.token_eq_ok_iff, hSpelt]
  constructor
  · rintro ⟨t, ⟨hHolds, rfl⟩, rfl⟩
    exact ⟨_, hHolds, by rw [length_leBytes], t, rfl, rfl⟩
  · rintro ⟨_, hHolds, rfl, t, rfl, rfl⟩
    exact ⟨t, ⟨hHolds, by rw [length_leBytes]⟩, rfl⟩

/-- A displacement counts from the end of the instruction, which is where reading it ends. -/
theorem reads_branch {f : Int → α} {g : α → Int} (hWidth : 0 < width)
    (hForm : scan kind = Scan.int width >>= fun displacement => do
      return .target ((← Scan.position) + displacement))
    (hSpelt : ∀ stop bs operand, Spelt stop bs operand kind ↔
      ∃ value, bs = leSigned width (g value) ∧ operand = .target (stop + g value))
    (hForth : ∀ n, InRange width n → g (f n) = n) (hRange : ∀ value, InRange width (g value)) :
    kind.Reads := by
  intro code position operand stop _
  rw [hForm]
  simp only [hSpelt]
  constructor
  · intro hScan
    obtain ⟨n, middle, hNumber, hPure⟩ := Scan.bind_eq_ok hScan
    obtain ⟨hHolds, rfl, hn⟩ := (Scan.int_eq_ok_iff hWidth).1 hNumber
    cases hPure
    exact ⟨_, hHolds, by rw [length_leSigned], f n, by rw [hForth n hn], by rw [hForth n hn]⟩
  · rintro ⟨_, hHolds, rfl, value, rfl, rfl⟩
    rw [length_leSigned,
      Scan.bind_of_ok ((Scan.int_eq_ok_iff hWidth).2 ⟨hHolds, rfl, hRange value⟩)]
    rfl

/-- The type has no numbers beyond its width. This and the next ones are the conditions of the
kinds. -/
theorem inRange_int8 (value : Int8) : InRange 1 value.toInt := by
  have := value.le_toInt
  have := value.toInt_lt
  simp only [InRange, byteRange]
  omega

theorem inRange_int32 (value : Int32) : InRange 4 value.toInt := by
  have := value.le_toInt
  have := value.toInt_lt
  simp only [InRange, byteRange]
  omega

theorem inRange_int64 (value : Int64) : InRange 8 value.toInt := by
  have := value.le_toInt
  have := value.toInt_lt
  simp only [InRange, byteRange]
  omega

/-- Conversely, no number of that width is cut by the type. -/
theorem toInt_ofInt_int8 (n : Int) (hn : InRange 1 n) : (Int8.ofInt n).toInt = n := by
  simp only [InRange, byteRange] at hn
  exact Int8.toInt_ofInt_of_le (by omega) (by omega)

theorem toInt_ofInt_int32 (n : Int) (hn : InRange 4 n) : (Int32.ofInt n).toInt = n := by
  simp only [InRange, byteRange] at hn
  exact Int32.toInt_ofInt_of_le (by omega) (by omega)

theorem toInt_ofInt_int64 (n : Int) (hn : InRange 8 n) : (Int64.ofInt n).toInt = n := by
  simp only [InRange, byteRange] at hn
  exact Int64.toInt_ofInt_of_le (by omega) (by omega)

/-- Displacements are read from a table of their own bytes only. -/
theorem times_int_eq_ok {code : Bytes} {start stop count : Nat} {ns : List Int}
    (hInside : start ≤ code.size) :
    Scan.times count (Scan.int 4) code start = .ok ns stop ↔
      ∃ displacements : List Int32, displacements.length = count ∧
        ns = displacements.map Int32.toInt ∧
        code.Holds start (displacements.map (leSigned 4 ·.toInt)).flatten ∧
        stop = start + (displacements.map (leSigned 4 ·.toInt)).flatten.length := by
  constructor
  · intro hTimes
    have hEach : ∀ start n stop, Scan.int 4 code start = .ok n stop → ∃ chunk,
        code.Holds start chunk ∧ stop = start + chunk.length ∧
          ((Int32.ofInt n).toInt = n ∧ leSigned 4 n = chunk) := by
      intro start n stop hNumber
      obtain ⟨hChunk, rfl, hn⟩ := (Scan.int_eq_ok_iff (by decide)).1 hNumber
      exact ⟨_, hChunk, by rw [length_leSigned], toInt_ofInt_int32 n hn, rfl⟩
    obtain ⟨rfl, chunks, hChunks, hFlat, rfl⟩ := Scan.forall₂_of_times hEach hInside hTimes
    obtain ⟨hBack, hChunks⟩ := List.forall₂_and_left _ _ |>.1 hChunks
    rw [← List.forall₂_map_left_iff, List.forall₂_eq_eq_eq] at hChunks
    subst hChunks
    have hSame : (ns.map Int32.ofInt).map (leSigned 4 ·.toInt) = ns.map (leSigned 4) := by
      rw [List.map_map]
      exact List.map_congr_left fun n hMem => by rw [Function.comp_apply, hBack n hMem]
    refine ⟨ns.map Int32.ofInt, List.length_map .., ?_, hSame ▸ hFlat, by rw [hSame]⟩
    rw [List.map_map]
    exact ((List.map_congr_left hBack).trans (List.map_id ns)).symm
  · rintro ⟨displacements, rfl, rfl, hTable, rfl⟩
    have hValues : List.Forall₂ (fun n chunk => ∀ start, code.Holds start chunk →
        Scan.int 4 code start = .ok n (start + chunk.length))
        (displacements.map Int32.toInt) (displacements.map (leSigned 4 ·.toInt)) := by
      rw [List.forall₂_map_left_iff, List.forall₂_map_right_iff, List.forall₂_same]
      intro value _ start hChunk
      rw [length_leSigned]
      exact (Scan.int_eq_ok_iff (by decide)).2 ⟨hChunk, rfl, inRange_int32 value⟩
    have hTimes := Scan.times_of_forall₂ hTable hValues
    rwa [List.length_map] at hTimes

/-- A jump table is read as a length and then as so many ways, which all count from the end of the
table. -/
theorem reads_switch : OperandKind.switch.Reads := by
  intro code position operand stop hInside
  constructor
  · intro hScan
    obtain ⟨count, first, hNumber, hScan⟩ := Scan.bind_eq_ok hScan
    obtain ⟨hHolds, rfl, hCount⟩ := Scan.uint_eq_ok_iff.1 hNumber
    obtain ⟨room, _, hRemaining, hScan⟩ := Scan.bind_eq_ok hScan
    cases hRemaining
    split at hScan
    · cases hScan
    obtain ⟨ns, last, hTimes, hScan⟩ := Scan.bind_eq_ok hScan
    cases hScan
    have hBehind := hHolds.1
    rw [length_leBytes] at hBehind
    obtain ⟨displacements, rfl, rfl, hTable, rfl⟩ := (times_int_eq_ok hBehind).1 hTimes
    exact ⟨_, Bytes.holds_append.2 ⟨hHolds, by rwa [length_leBytes]⟩,
      by rw [List.length_append, length_leBytes, Nat.add_assoc], displacements, hCount, rfl,
      by rw [List.map_map]; rfl⟩
  · rintro ⟨_, hHolds, rfl, displacements, hCount, rfl, rfl⟩
    obtain ⟨hHead, hTable⟩ := Bytes.holds_append.1 hHolds
    rw [length_leBytes] at hTable
    have hWidth : (displacements.map (leSigned 4 ·.toInt)).flatten.length
        = 4 * displacements.length := by
      simp [List.length_flatten, Function.comp_def, Nat.mul_comm]
    have hRoom : ¬ (code.size - (position + 4)) / 4 < displacements.length := by
      have := hTable.1
      omega
    rw [scan, Scan.bind_of_ok (hHead.scan_leBytes hCount),
      Scan.bind_of_ok (show Scan.remaining code _ = .ok _ _ from rfl), if_neg hRoom,
      Scan.bind_of_ok ((times_int_eq_ok hTable.offset_le).2 ⟨displacements, rfl, rfl, hTable, rfl⟩)]
    change EStateM.Result.ok _ _ = _
    rw [List.map_map, List.length_append, length_leBytes, Nat.add_assoc]
    rfl

/-- Operands of all kinds are read exactly as they are spelt. -/
theorem reads (kind : OperandKind) : kind.Reads := by
  cases kind with
  | none =>
      intro code position operand stop hInside
      rw [scan, Scan.pure_eq_ok]
      constructor
      · rintro ⟨rfl, rfl⟩
        exact ⟨[], Bytes.holds_nil.2 hInside, rfl, rfl, rfl⟩
      · rintro ⟨_, _, rfl, rfl, rfl⟩
        exact ⟨rfl, rfl⟩
  | int8 =>
      exact reads_signed (fun value => .plain (.int8 value)) (by decide) rfl
        (fun _ _ _ => Iff.rfl) toInt_ofInt_int8 Int8.ofInt_toInt inRange_int8
  | uint8 =>
      exact reads_unsigned (fun value => .plain (.uint8 value)) rfl (fun _ _ _ => Iff.rfl)
        (fun _ => UInt8.toNat_ofNat_of_lt') (fun _ => UInt8.ofNat_toNat) UInt8.toNat_lt
  | uint16 =>
      exact reads_unsigned (fun value => .plain (.uint16 value)) rfl (fun _ _ _ => Iff.rfl)
        (fun _ => UInt16.toNat_ofNat_of_lt') (fun _ => UInt16.ofNat_toNat) UInt16.toNat_lt
  | int32 =>
      exact reads_signed (fun value => .plain (.int32 value)) (by decide) rfl
        (fun _ _ _ => Iff.rfl) toInt_ofInt_int32 Int32.ofInt_toInt inRange_int32
  | int64 =>
      exact reads_signed (fun value => .plain (.int64 value)) (by decide) rfl
        (fun _ _ _ => Iff.rfl) toInt_ofInt_int64 Int64.ofInt_toInt inRange_int64
  | float32 =>
      exact reads_unsigned (fun bits => .plain (.float32 bits)) rfl (fun _ _ _ => Iff.rfl)
        (fun _ => UInt32.toNat_ofNat_of_lt') (fun _ => UInt32.ofNat_toNat) UInt32.toNat_lt
  | float64 =>
      exact reads_unsigned (fun bits => .plain (.float64 bits)) rfl (fun _ _ _ => Iff.rfl)
        (fun _ => UInt64.toNat_ofNat_of_lt') (fun _ => UInt64.ofNat_toNat) UInt64.toNat_lt
  | token => exact reads_token (fun t => .plain (.token t)) rfl fun _ _ _ => Iff.rfl
  | method => exact reads_token .method rfl fun _ _ _ => Iff.rfl
  | literal => exact reads_token .literal rfl fun _ _ _ => Iff.rfl
  | shortBranch =>
      exact reads_branch (by decide) rfl (fun _ _ _ => Iff.rfl) toInt_ofInt_int8 inRange_int8
  | branch =>
      exact reads_branch (by decide) rfl (fun _ _ _ => Iff.rfl) toInt_ofInt_int32 inRange_int32
  | switch => exact reads_switch

end RawOperand

namespace Opcode

/-- No two opcodes have the same value. -/
theorem ofValue?_eq_some {value : Nat} {op : Opcode} :
    ofValue? value = some op ↔ op.value = value := by
  constructor
  · intro hSome
    simpa using List.find?_some hSome
  · rintro rfl
    exact op.ofValue?_value

/-- The value of an opcode is read from the bytes of the opcode only. -/
theorem scanValue_eq_ok {op : Opcode} {code : Bytes} {position stop : Nat} :
    scanValue code position = .ok op.value stop ↔
      code.Holds position op.encode ∧ stop = position + op.size := by
  constructor
  · intro hScan
    obtain ⟨first, middle, hFirst, hRest⟩ := Scan.bind_eq_ok hScan
    obtain ⟨hHolds, rfl, hByte⟩ := Scan.uint_eq_ok_iff.1 hFirst
    have hForm := op.value_form
    have hEscape : escape = 0xFE := rfl
    simp only [byteRange] at hByte
    split at hRest
    · rename_i hTwo
      obtain ⟨second, hSecond, hValue⟩ := Scan.map_eq_ok.1 hRest
      obtain ⟨hHolds', rfl, hByte'⟩ := Scan.uint_eq_ok_iff.1 hSecond
      simp only [byteRange] at hByte'
      have hLarge : op.value > 0xFF := by omega
      have hLow : UInt8.ofNat op.value = UInt8.ofNat second := by
        rw [← UInt8.toNat_inj, UInt8.toNat_ofNat', UInt8.toNat_ofNat']
        omega
      rw [encode, size, if_pos hLarge, if_pos hLarge, ← hTwo, hLow, ← List.singleton_append]
      exact ⟨Bytes.holds_append.2 ⟨hHolds, hHolds'⟩, rfl⟩
    · rename_i hOne
      obtain ⟨hValue, rfl⟩ := Scan.pure_eq_ok.1 hRest
      have hSmall : ¬ op.value > 0xFF := by omega
      rw [encode, size, if_neg hSmall, if_neg hSmall, ← hValue]
      exact ⟨hHolds, rfl⟩
  · rintro ⟨hHolds, rfl⟩
    exact scanValue_of_holds hHolds

end Opcode

namespace RawInstruction

variable {code : Bytes} {position stop : Nat} {raw : RawInstruction}

/-- The bytes are the encoding of the instruction, which starts at an offset: its opcode and a
complete operand. -/
def Spelt (start : Nat) (bs : List UInt8) (raw : RawInstruction) : Prop :=
  raw.offset = start ∧ raw.size = bs.length ∧ ∃ operand : List UInt8,
    bs = raw.opcode.encode ++ operand ∧
    raw.operand.Spelt (start + bs.length) operand raw.opcode.operand

/-- An instruction is read exactly if the bytes spell it, and reading ends where they do. -/
theorem scan_eq_ok_iff : scan code position = .ok raw stop ↔
    ∃ bs, code.Holds position bs ∧ stop = position + bs.length ∧ Spelt position bs raw := by
  constructor
  · intro hScan
    obtain ⟨_, _, hPosition, hScan⟩ := Scan.bind_eq_ok hScan
    cases hPosition
    obtain ⟨value, middle, hValue, hScan⟩ := Scan.bind_eq_ok hScan
    obtain ⟨op, hOpcode⟩ : ∃ op, Opcode.ofValue? value = some op := by
      refine Option.ne_none_iff_exists'.1 fun hNone => ?_
      rw [hNone] at hScan
      cases hScan
    rw [hOpcode] at hScan
    obtain rfl := Opcode.ofValue?_eq_some.1 hOpcode
    obtain ⟨operand, last, hOperand, hScan⟩ := Scan.bind_eq_ok hScan
    cases hScan
    obtain ⟨hHolds, rfl⟩ := Opcode.scanValue_eq_ok.1 hValue
    have hInside := hHolds.1
    rw [Opcode.length_encode] at hInside
    obtain ⟨bs, hHolds', rfl, hSpelt⟩ := (RawOperand.reads _ _ _ _ _ hInside).1 hOperand
    have hStop : position + op.size + bs.length = position + (op.encode ++ bs).length := by
      rw [List.length_append, Opcode.length_encode, Nat.add_assoc]
    refine ⟨op.encode ++ bs, Bytes.holds_append.2 ⟨hHolds, by rwa [Opcode.length_encode]⟩, hStop,
      rfl, ?_, bs, rfl, hStop ▸ hSpelt⟩
    dsimp only
    rw [hStop, Nat.add_sub_cancel_left]
  · rintro ⟨_, hHolds, rfl, hOffset, hSize, operand, rfl, hSpelt⟩
    obtain ⟨hOpcode, hOperand⟩ := Bytes.holds_append.1 hHolds
    rw [Opcode.length_encode] at hOperand
    have hScan := (RawOperand.reads _ code (position + raw.opcode.size) raw.operand _
      hOperand.offset_le).2 ⟨operand, hOperand, rfl, by
        rwa [List.length_append, Opcode.length_encode, ← Nat.add_assoc] at hSpelt⟩
    rw [scan, Scan.bind_of_ok (show Scan.position code _ = .ok _ _ from rfl),
      Scan.bind_of_ok (Opcode.scanValue_of_holds hOpcode), Opcode.ofValue?_value]
    change (RawOperand.scan _ >>= _) code _ = _
    rw [Scan.bind_of_ok hScan]
    change EStateM.Result.ok _ _ = _
    rw [List.length_append, Opcode.length_encode] at hSize ⊢
    rw [← Nat.add_assoc]
    congr 1
    cases raw
    simp only at hOffset hSize ⊢
    congr 1
    · exact hOffset.symm
    · omega

end RawInstruction

end IlSplice
