import IlSplice.Body.Clause
import IlSplice.Proofs.Bytes.Reading

/-! Exception clauses. The section that is written for a list of clauses is read back as that list,
from wherever the alignment puts it. -/

namespace IlSplice.Clause

variable {c : Clause} {clauses : List Clause} {fat : Bool} {bs : List UInt8} {data : Bytes}
  {origin start : Nat}

/-- The bits of the flags have a meaning, and the fields have room in their form. -/
structure Fits (c : Clause) (fat : Bool) : Prop where
  flags_lt : c.flags.bits.toNat < 8
  small : fat = false → c.fitsSmall

@[simp] theorem length_encode : (c.encode fat).length = Clause.size fat := by
  cases fat <;> simp [encode, Clause.size]

theorem length_flatMap_encode :
    (clauses.flatMap (encode fat)).length = clauses.length * Clause.size fat := by
  simp only [List.length_flatMap, length_encode, List.map_const', List.sum_replicate_nat]

/-- Flags without unknown bits are read back. The reader drops all others. -/
theorem ofNat_flags (hFlags : c.flags.bits.toNat < 8) :
    ClauseFlags.ofNat c.flags.bits.toNat = c.flags := by
  rw [ClauseFlags.ofNat, Nat.mod_eq_of_lt hFlags, UInt16.ofNat_toNat]

/-- Every field has room in its bytes. -/
theorem Fits.ranges (hFits : c.Fits fat) :
    c.flags.bits.toNat < byteRange (if fat then 4 else 2) ∧
      c.tryOffset.toNat < byteRange (if fat then 4 else 2) ∧
      c.tryLength.toNat < byteRange (if fat then 4 else 1) ∧
      c.handlerOffset.toNat < byteRange (if fat then 4 else 2) ∧
      c.handlerLength.toNat < byteRange (if fat then 4 else 1) := by
  have hFlags := hFits.flags_lt
  cases fat with
  | false =>
      have hSmall := hFits.small rfl
      simp only [fitsSmall, Bool.and_eq_true, decide_eq_true_eq] at hSmall
      simp only [byteRange, Bool.false_eq_true, if_false]
      omega
  | true =>
      have := c.tryOffset.toNat_lt
      have := c.tryLength.toNat_lt
      have := c.handlerOffset.toNat_lt
      have := c.handlerLength.toNat_lt
      simp only [byteRange, if_true]
      omega

theorem scan_of_encode (hFits : c.Fits fat) (hHolds : data.Holds start (c.encode fat)) :
    scan fat data start = .ok c (start + Clause.size fat) := by
  obtain ⟨hFront, hLast⟩ := Bytes.holds_append.1 hHolds
  obtain ⟨hFront, hHandlerLength⟩ := Bytes.holds_append.1 hFront
  obtain ⟨hFront, hHandlerOffset⟩ := Bytes.holds_append.1 hFront
  obtain ⟨hFront, hTryLength⟩ := Bytes.holds_append.1 hFront
  obtain ⟨hFlags, hTryOffset⟩ := Bytes.holds_append.1 hFront
  simp only [List.length_append, length_leBytes, ← Nat.add_assoc] at hLast hHandlerLength
  simp only [List.length_append, length_leBytes, ← Nat.add_assoc] at hHandlerOffset hTryLength
  rw [length_leBytes] at hTryOffset
  obtain ⟨hF, hTO, hTL, hHO, hHL⟩ := hFits.ranges
  rw [scan, Scan.bind_of_ok (hFlags.scan_leBytes hF), Scan.bind_of_ok (hTryOffset.scan_leBytes hTO),
    Scan.bind_of_ok (hTryLength.scan_leBytes hTL),
    Scan.bind_of_ok (hHandlerOffset.scan_leBytes hHO),
    Scan.bind_of_ok (hHandlerLength.scan_leBytes hHL), Scan.bind_of_ok hLast.scan_u32,
    Scan.pure_eq_ok, ofNat_flags hFits.flags_lt]
  simp only [UInt32.ofNat_toNat, true_and]
  cases fat <;> rfl

/-- The clauses of a section are read one after the other. -/
theorem times_scan (hFits : ∀ c ∈ clauses, c.Fits fat)
    (hHolds : data.Holds start (clauses.flatMap (encode fat))) :
    Scan.times clauses.length (scan fat) data start
      = .ok clauses (start + clauses.length * Clause.size fat) := by
  have hEach : List.Forall₂ (fun c chunk => ∀ start, data.Holds start chunk →
      scan fat data start = .ok c (start + chunk.length)) clauses (clauses.map (encode fat)) := by
    rw [List.forall₂_map_right_iff, List.forall₂_same]
    intro c hMem start hChunk
    rw [length_encode]
    exact scan_of_encode (hFits c hMem) hChunk
  have hLength : (clauses.map (encode fat)).flatten.length = clauses.length * Clause.size fat := by
    rw [← List.flatMap_def, length_flatMap_encode]
  rw [List.flatMap_def] at hHolds
  rw [Scan.times_of_forall₂ hHolds hEach, hLength]

/-- A section is read back from its flags, its size and its clauses. -/
theorem scanSection_of_parts {n size : Nat} {lead : UInt8} (sizeBytes : List UInt8)
    (hLead : SectionFlags.ofByte lead = ⟨true, false, fat, false⟩) (hThree : sizeBytes.length = 3)
    (hScan : ∀ position, data.Holds position sizeBytes →
      scanSectionSize fat data position = .ok size (position + 3))
    (hSize : size = 4 + clauses.length * Clause.size fat) (hFits : ∀ c ∈ clauses, c.Fits fat)
    (hHolds : data.Holds (origin + alignUp n 4)
      (lead :: sizeBytes ++ clauses.flatMap (encode fat))) :
    scanSection origin data (origin + n)
      = .ok (clauses, false) (origin + alignUp n 4 + size) := by
  obtain ⟨hHead, hClauses⟩ := Bytes.holds_append.1 hHolds
  obtain ⟨hLeadByte, hSizeBytes⟩ := Bytes.holds_cons.1 hHead
  have hEnd := hClauses.1
  rw [List.length_cons, hThree] at hClauses hEnd
  rw [length_flatMap_encode] at hEnd
  have hInside : origin + alignUp n 4 + size ≤ data.size := by omega
  have hCount : (size - 4) / Clause.size fat = clauses.length := by
    have hPos : 0 < Clause.size fat := by cases fat <;> decide
    rw [hSize, Nat.add_sub_cancel_left, Nat.mul_div_cancel _ hPos]
  rw [scanSection, Scan.bind_of_ok (Scan.align_of_le (by omega)),
    Scan.bind_of_ok (show Scan.position data _ = .ok _ _ from rfl),
    Scan.bind_of_ok (Bytes.scan_u8 hLeadByte), hLead]
  change (scanSectionSize fat >>= _) data _ = _
  rw [Scan.bind_of_ok (hScan _ hSizeBytes), if_neg (by omega), hCount,
    Scan.bind_of_ok (times_scan hFits hClauses)]
  rw [Scan.bind_of_ok (show Scan.seek _ data _ = .ok () _ from if_pos hInside), Scan.pure_eq_ok]
  exact ⟨rfl, rfl⟩

/-- A small section has one byte for its size and leaves out two. -/
theorem scanSectionSize_small {size position : Nat} (hSize : size < 0x100)
    (hHolds : data.Holds position (UInt8.ofNat size :: leBytes 2 0)) :
    scanSectionSize false data position = .ok size (position + 3) := by
  rw [← List.singleton_append] at hHolds
  obtain ⟨hByte, hZeros⟩ := Bytes.holds_append.1 hHolds
  have hEnd := hZeros.1
  rw [List.length_singleton, length_leBytes] at hEnd
  rw [scanSectionSize, if_neg (by decide), Scan.bind_of_ok hByte.scan_byte,
    Scan.bind_of_ok (Scan.skip_of_le hEnd), UInt8.toNat_ofNat', Nat.mod_eq_of_lt hSize]
  rfl

theorem scanSectionSize_fat {size position : Nat} (hSize : size < 0x1000000)
    (hHolds : data.Holds position (leBytes 3 size)) :
    scanSectionSize true data position = .ok size (position + 3) :=
  hHolds.scan_leBytes hSize

/-- The smallest section is chosen that has room for the clauses, and is read back. -/
theorem scanSection_of_encodeSection {n : Nat} (hEncode : encodeSection clauses = .ok bs)
    (hFlags : ∀ c ∈ clauses, c.flags.bits.toNat < 8)
    (hHolds : data.Holds (origin + alignUp n 4) bs) :
    scanSection origin data (origin + n)
      = .ok (clauses, false) (origin + alignUp n 4 + bs.length) := by
  unfold encodeSection at hEncode
  dsimp only at hEncode
  split at hEncode
  · rename_i hSmall
    cases hEncode
    have hFits : ∀ c ∈ clauses, c.Fits false := fun c hMem =>
      ⟨hFlags c hMem, fun _ => List.all_eq_true.1 hSmall.2 c hMem⟩
    rw [scanSection_of_parts (UInt8.ofNat (4 + clauses.length * Clause.size false) :: leBytes 2 0)
      (by decide) rfl (fun _ => scanSectionSize_small hSmall.1) rfl hFits hHolds]
    congr 1
    rw [List.length_append, length_flatMap_encode, List.length_cons, List.length_cons,
      length_leBytes]
  · split at hEncode
    · rename_i hFat
      cases hEncode
      have hFits : ∀ c ∈ clauses, c.Fits true := fun c hMem => ⟨hFlags c hMem, nofun⟩
      rw [scanSection_of_parts (leBytes 3 (4 + clauses.length * Clause.size true))
        (by decide) rfl (fun _ => scanSectionSize_fat hFat) rfl hFits hHolds]
      congr 1
      rw [List.length_append, length_flatMap_encode, List.length_cons, length_leBytes]
    · cases hEncode

/-- There is no section where the alignment leads behind the data. -/
theorem scanSection_of_outside (hStart : origin ≤ start)
    (hOutside : ¬ origin + alignUp (start - origin) 4 ≤ data.size) :
    scanSection origin data start = .error .outOfBounds start :=
  Scan.bind_of_error ((Scan.align_eq hStart).trans (if_neg hOutside))

/-- The walk by what its next round reads. -/
theorem scanSections_eq (origin : Nat) (found : List Clause) (data : Bytes) (start : Nat) :
    scanSections origin found data start = match scanSection origin data start with
      | .error fault stop => .error fault stop
      | .ok (clauses, false) stop => .ok (found ++ clauses) stop
      | .ok (clauses, true) stop => scanSections origin (found ++ clauses) data stop := by
  rw [scanSections]
  split <;> rename_i hSection <;> simp only [hSection]

/-- A section without a successor ends the chain. -/
theorem scanSections_of_last {position stop : Nat} {found : List Clause}
    (hSection : scanSection origin data position = .ok (clauses, false) stop) :
    scanSections origin found data position = .ok (found ++ clauses) stop := by
  rw [scanSections_eq, hSection]

/-- The walk goes on behind a section that announces another one, and keeps what was found. -/
theorem scanSections_of_more {position stop : Nat} {found : List Clause}
    (hSection : scanSection origin data position = .ok (clauses, true) stop) :
    scanSections origin found data position = scanSections origin (found ++ clauses) data stop := by
  rw [scanSections_eq, hSection]

theorem scanSections_of_error {position stop : Nat} {found : List Clause} {fault : Fault}
    (hSection : scanSection origin data position = .error fault stop) :
    scanSections origin found data position = .error fault stop := by
  rw [scanSections_eq, hSection]

end IlSplice.Clause
