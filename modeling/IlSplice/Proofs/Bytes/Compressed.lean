import IlSplice.Bytes.Compressed
import IlSplice.Proofs.Bytes.Reading

/-! Compressed numbers. A number has a form for each of the widths that have room for it. Reading
accepts all of them, and the shortest one is written. -/

namespace IlSplice.Compressed

open Bytes

/-- The bytes that stand for a number. The top bits of the first one say how many there are. -/
inductive Form (n : Nat) : List UInt8 → Prop where
  | one {lead : UInt8} (lead_lt : lead.toNat < 0x80) (value : n = lead.toNat) : Form n [lead]
  | two {lead low : UInt8} (le_lead : 0x80 ≤ lead.toNat) (lead_lt : lead.toNat < 0xC0)
      (value : n = (lead.toNat - 0x80) * 0x100 + low.toNat) : Form n [lead, low]
  | four {lead high middle low : UInt8} (le_lead : 0xC0 ≤ lead.toNat) (lead_lt : lead.toNat < 0xE0)
      (value : n = (lead.toNat - 0xC0) * 0x1000000 + high.toNat * 0x10000 + middle.toNat * 0x100
        + low.toNat) : Form n [lead, high, middle, low]

variable {n start stop : Nat} {bs : List UInt8} {data out : Bytes} {fault : Fault}

/-- The first byte says how many follow, so no number depends on what stands behind it. -/
theorem local_scan : Scan.Local scan := by
  refine Scan.local_u8.bind fun lead => ?_
  dsimp only
  split
  · exact Scan.local_pure _
  · split
    · exact Scan.local_u8.bind fun _ => Scan.local_pure _
    · split
      · exact Scan.local_u8.bind fun _ => Scan.local_u8.bind fun _ => Scan.local_u8.bind fun _ =>
          Scan.local_pure _
      · exact Scan.local_throw _

namespace Form

theorem lt (hForm : Form n bs) : n < 0x20000000 := by
  cases hForm with
  | one hLess hValue => omega
  | @two lead low _ hLess hValue =>
      have := low.toNat_lt
      omega
  | @four lead high middle low _ hLess hValue =>
      have := high.toNat_lt
      have := middle.toNat_lt
      have := low.toNat_lt
      omega

/-- A form with fewer bytes has room for smaller numbers only. -/
theorem length_cases (hForm : Form n bs) : bs.length = 1 ∧ n < 0x80 ∨
    bs.length = 2 ∧ n < 0x4000 ∨ bs.length = 4 := by
  cases hForm with
  | one hLess hValue => exact .inl ⟨rfl, by omega⟩
  | @two lead low _ hLess hValue =>
      have := low.toNat_lt
      exact .inr (.inl ⟨rfl, by omega⟩)
  | four => exact .inr (.inr rfl)

/-- Each form is read back as its number, from any place where it stands. -/
theorem scan (hForm : Form n bs) (hHolds : data.Holds start bs) :
    Compressed.scan data start = .ok n (start + bs.length) := by
  cases hForm with
  | one hLess hValue =>
      obtain ⟨hLead, -⟩ := holds_cons.1 hHolds
      rw [Compressed.scan, Scan.bind_of_ok (scan_u8 hLead)]
      dsimp only
      rw [if_pos hLess, hValue]
      rfl
  | two hLead' hLess hValue =>
      simp only [holds_cons] at hHolds
      obtain ⟨hLead, hLow, -⟩ := hHolds
      rw [Compressed.scan, Scan.bind_of_ok (scan_u8 hLead)]
      dsimp only
      rw [if_neg (by omega), if_pos hLess, Scan.bind_of_ok (scan_u8 hLow), hValue]
      rfl
  | four hLead' hLess hValue =>
      simp only [holds_cons] at hHolds
      obtain ⟨hLead, hHigh, hMiddle, hLow, -⟩ := hHolds
      rw [Compressed.scan, Scan.bind_of_ok (scan_u8 hLead)]
      dsimp only
      rw [if_neg (by omega), if_neg (by omega), if_pos hLess, Scan.bind_of_ok (scan_u8 hHigh),
        Scan.bind_of_ok (scan_u8 hMiddle), Scan.bind_of_ok (scan_u8 hLow), hValue]
      rfl

end Form

/-- Reading accepts the forms of numbers and nothing else. -/
theorem scan_eq_ok : scan data start = .ok n stop ↔
    ∃ bs, Form n bs ∧ data.Holds start bs ∧ stop = start + bs.length := by
  constructor
  · intro hScan
    obtain ⟨lead, behind, hLead, hScan⟩ := Scan.bind_eq_ok hScan
    obtain ⟨hLeadByte, rfl⟩ := Scan.u8_eq_ok.1 hLead
    have hEnd : ∀ {i : Nat} {b : UInt8}, data[i]? = some b → data.Holds (i + 1) [] :=
      fun hByte => holds_nil.2 (Array.getElem?_eq_some_iff.1 hByte).1
    dsimp only at hScan
    split at hScan
    · rename_i hOne
      obtain ⟨rfl, rfl⟩ := Scan.pure_eq_ok.1 hScan
      exact ⟨[lead], .one hOne rfl, holds_cons.2 ⟨hLeadByte, hEnd hLeadByte⟩, rfl⟩
    split at hScan
    · rename_i hOne hTwo
      obtain ⟨low, _, hLow, hScan⟩ := Scan.bind_eq_ok hScan
      obtain ⟨hLowByte, rfl⟩ := Scan.u8_eq_ok.1 hLow
      obtain ⟨rfl, rfl⟩ := Scan.pure_eq_ok.1 hScan
      refine ⟨[lead, low], .two (Nat.le_of_not_lt hOne) hTwo rfl, ?_, rfl⟩
      simp only [holds_cons]
      exact ⟨hLeadByte, hLowByte, hEnd hLowByte⟩
    split at hScan
    · rename_i hTwo hFour
      obtain ⟨high, _, hHigh, hScan⟩ := Scan.bind_eq_ok hScan
      obtain ⟨hHighByte, rfl⟩ := Scan.u8_eq_ok.1 hHigh
      obtain ⟨middle, _, hMiddle, hScan⟩ := Scan.bind_eq_ok hScan
      obtain ⟨hMiddleByte, rfl⟩ := Scan.u8_eq_ok.1 hMiddle
      obtain ⟨low, _, hLow, hScan⟩ := Scan.bind_eq_ok hScan
      obtain ⟨hLowByte, rfl⟩ := Scan.u8_eq_ok.1 hLow
      obtain ⟨rfl, rfl⟩ := Scan.pure_eq_ok.1 hScan
      refine ⟨[lead, high, middle, low], .four (Nat.le_of_not_lt hTwo) hFour rfl, ?_, rfl⟩
      simp only [holds_cons]
      exact ⟨hLeadByte, hHighByte, hMiddleByte, hLowByte, hEnd hLowByte⟩
    · cases hScan
  · rintro ⟨bs, hForm, hHolds, rfl⟩
    exact hForm.scan hHolds

/-- Where the data does not end too early, reading fails exactly at bytes that no form starts
with. -/
theorem exists_scan_eq_malformed_iff :
    (∃ fault stop, scan data start = .error fault stop ∧ fault.category = .malformed) ↔
      ∃ lead, data[start]? = some lead ∧ 0xE0 ≤ lead.toNat := by
  constructor
  · rintro ⟨fault, stop, hScan, hMalformed⟩
    have hNotEnd : fault ≠ .outOfBounds := by
      rintro rfl
      cases hMalformed
    rcases Scan.bind_eq_error.1 hScan with hNone | ⟨lead, behind, hLead, hScan⟩
    · exact absurd (Scan.failsAtEnd_u8 _ _ _ _ hNone) hNotEnd
    obtain ⟨hLeadByte, rfl⟩ := Scan.u8_eq_ok.1 hLead
    refine ⟨lead, hLeadByte, Nat.le_of_not_lt fun hLess => hNotEnd ?_⟩
    -- Behind a first byte of a form only the end of the data is in the way.
    dsimp only at hScan
    split at hScan
    · cases hScan
    split at hScan
    · exact (Scan.failsAtEnd_u8.bind fun _ => Scan.failsAtEnd_pure _) _ _ _ _ hScan
    · exact (Scan.failsAtEnd_u8.bind fun _ => Scan.failsAtEnd_u8.bind fun _ =>
        Scan.failsAtEnd_u8.bind fun _ => Scan.failsAtEnd_pure _) _ _ _ _ hScan
  · rintro ⟨lead, hLead, hLarge⟩
    refine ⟨.compressedLead lead.toNat, start + 1, ?_, rfl⟩
    rw [scan, Scan.bind_of_ok (scan_u8 hLead)]
    dsimp only
    rw [if_neg (by omega), if_neg (by omega), if_neg (by omega)]
    rfl

/-- Numbers are written in their shortest form. -/
theorem shortest_of_encode (hEncode : encode n = .ok bs) :
    Form n bs ∧ ∀ other, Form n other → bs.length ≤ other.length := by
  have hByte : ∀ m : Nat, (UInt8.ofNat m).toNat = m % 256 := fun m => UInt8.toNat_ofNat'
  unfold encode at hEncode
  simp only [Nat.shiftRight_eq_div_pow] at hEncode
  split at hEncode
  · rename_i hOne
    cases hEncode
    refine ⟨.one ?_ ?_, fun other hOther => ?_⟩
    · rw [hByte]
      omega
    · rw [hByte]
      omega
    · rcases hOther.length_cases with hLength | hLength | hLength <;> simp [hLength]
  split at hEncode
  · rename_i hOne hTwo
    cases hEncode
    refine ⟨.two ?_ ?_ ?_, fun other hOther => ?_⟩
    · rw [hByte]
      omega
    · rw [hByte]
      omega
    · rw [hByte, hByte]
      omega
    · rcases hOther.length_cases with hLength | hLength | hLength
      · exact absurd hLength.2 hOne
      · simp [hLength]
      · simp [hLength]
  split at hEncode
  · rename_i hOne hTwo hFour
    cases hEncode
    refine ⟨.four ?_ ?_ ?_, fun other hOther => ?_⟩
    · rw [hByte]
      omega
    · rw [hByte]
      omega
    · rw [hByte, hByte, hByte, hByte]
      omega
    · rcases hOther.length_cases with hLength | hLength | hLength
      · exact absurd hLength.2 hOne
      · exact absurd hLength.2 hTwo
      · simp [hLength]
  · cases hEncode

theorem scan_of_encode (hEncode : encode n = .ok bs) (hHolds : data.Holds start bs) :
    scan data start = .ok n (start + bs.length) :=
  (shortest_of_encode hEncode).1.scan hHolds

theorem length_encode_le (hEncode : encode n = .ok bs) : bs.length ≤ 4 := by
  rcases (shortest_of_encode hEncode).1.length_cases with hLength | hLength | hLength <;> omega

/-- Numbers of up to 29 bits have a form. -/
theorem exists_encode_iff : (∃ bs, encode n = .ok bs) ↔ n < 0x20000000 := by
  refine ⟨fun ⟨bs, hEncode⟩ => (shortest_of_encode hEncode).1.lt, fun hRoom => ?_⟩
  unfold encode
  split
  · exact ⟨_, rfl⟩
  split <;> exact ⟨_, rfl⟩

/-- Only the size of a number can be wrong, and the message gives the number. -/
theorem encode_eq_error :
    encode n = .error fault ↔ 0x20000000 ≤ n ∧ fault = .compressedTooLarge n := by
  constructor
  · intro hError
    have hLarge : 0x20000000 ≤ n := by
      by_contra hRoom
      obtain ⟨bs, hEncode⟩ := exists_encode_iff.2 (Nat.lt_of_not_le hRoom)
      rw [hEncode] at hError
      cases hError
    rw [encode, if_neg (by omega), if_neg (by omega), if_neg (by omega)] at hError
    cases hError
    exact ⟨hLarge, rfl⟩
  · rintro ⟨hLarge, rfl⟩
    rw [encode, if_neg (by omega), if_neg (by omega), if_neg (by omega)]

theorem append_eq_ok :
    append n data = .ok () out ↔ ∃ bs, encode n = .ok bs ∧ out = data ++ bs.toArray :=
  Edit.extend_eq_ok

/-- Where a number has no form the data stays as it is. -/
theorem append_eq_error :
    append n data = .error fault out ↔ encode n = .error fault ∧ out = data :=
  Edit.extend_eq_error

/-- Numbers of up to 29 bits are put behind data in the shortest of their forms, and are read back
there whatever follows. All others leave the data as it is. Whatever is read is a form of its
number, and the bytes that are refused although the data goes on are those that no form starts
with. -/
theorem scan_append (n : Nat) (data trailing : Bytes) :
    ((∃ out, append n data = .ok () out) ↔ n ≤ 0x1FFFFFFF) ∧
    (∀ fault out, append n data = .error fault out → out = data ∧ fault = .compressedTooLarge n) ∧
    (∀ out, append n data = .ok () out → scan (out ++ trailing) data.size = .ok n out.size ∧
      ∃ bs, out = data ++ bs.toArray ∧ Form n bs ∧
        ∀ other, Form n other → bs.length ≤ other.length) ∧
    ∀ (other : Bytes) (start : Nat),
      (∀ value stop, scan other start = .ok value stop ↔
        ∃ bs, Form value bs ∧ other.Holds start bs ∧ stop = start + bs.length) ∧
      (∀ value stop, scan other start = .ok value stop → value ≤ 0x1FFFFFFF) ∧
      ((∃ fault stop, scan other start = .error fault stop ∧ fault.category = .malformed) ↔
        ∃ lead, other[start]? = some lead ∧ 0xE0 ≤ lead.toNat) := by
  refine ⟨?_, fun fault out hAppend => ?_, fun out hAppend => ?_, fun other start =>
    ⟨fun value stop => scan_eq_ok, fun value stop hScan => ?_, exists_scan_eq_malformed_iff⟩⟩
  · rw [← Nat.lt_succ_iff, ← exists_encode_iff]
    constructor
    · rintro ⟨out, hAppend⟩
      obtain ⟨bs, hEncode, -⟩ := append_eq_ok.1 hAppend
      exact ⟨bs, hEncode⟩
    · rintro ⟨bs, hEncode⟩
      exact ⟨_, append_eq_ok.2 ⟨bs, hEncode, rfl⟩⟩
  · obtain ⟨hError, rfl⟩ := append_eq_error.1 hAppend
    exact ⟨rfl, (encode_eq_error.1 hError).2⟩
  · obtain ⟨bs, hEncode, rfl⟩ := append_eq_ok.1 hAppend
    obtain ⟨hForm, hShortest⟩ := shortest_of_encode hEncode
    have hSize : (data ++ bs.toArray).size = data.size + bs.length := by simp
    refine ⟨?_, bs, rfl, hForm, hShortest⟩
    rw [hSize]
    exact hForm.scan (holds_middle data bs trailing)
  · obtain ⟨bs, hForm, -⟩ := scan_eq_ok.1 hScan
    exact Nat.le_of_lt_succ hForm.lt

/-- The first number that takes four bytes. -/
example : encode 0x4000 = .ok [0xC0, 0, 0x40, 0] := rfl

end IlSplice.Compressed
