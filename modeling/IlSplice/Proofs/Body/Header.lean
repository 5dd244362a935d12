import IlSplice.Body.Header
import IlSplice.Proofs.Bytes.Reading

/-! Method headers. What is written is read back, and a tiny header is chosen for exactly those
bodies that it describes; only the stack of such a body may grow. -/

namespace IlSplice.MethodHeader

/-- A body of which a tiny header says all but the depth of its stack. -/
def FitsTiny (codeSize : Nat) (maxStack : UInt16) (locals : Token) (initLocals more : Bool) :
    Prop :=
  codeSize ≤ tinyMaxCode ∧ maxStack ≤ tinyMaxStack ∧ locals = .null ∧ initLocals = false ∧
    more = false

instance (codeSize : Nat) (maxStack : UInt16) (locals : Token) (initLocals more : Bool) :
    Decidable (FitsTiny codeSize maxStack locals initLocals more) :=
  inferInstanceAs (Decidable (_ ∧ _))

/-- The header that is written for a body. -/
def written (codeSize : Nat) (maxStack : UInt16) (locals : Token) (initLocals more : Bool) :
    MethodHeader :=
  if FitsTiny codeSize maxStack locals initLocals more then
    ⟨false, 1, codeSize, tinyMaxStack, .null, false, false⟩
  else ⟨true, fatSize, codeSize, maxStack, locals, initLocals, more⟩

variable {codeSize : Nat} {maxStack : UInt16} {locals : Token} {initLocals more : Bool}
  {bs : List UInt8} {data : Bytes} {start : Nat}

@[simp] theorem written_codeSize :
    (written codeSize maxStack locals initLocals more).codeSize = codeSize := by
  unfold written
  split <;> rfl

@[simp] theorem written_locals :
    (written codeSize maxStack locals initLocals more).locals = locals := by
  unfold written
  split
  · exact (‹FitsTiny _ _ _ _ _›.2.2.1).symm
  · rfl

@[simp] theorem written_initLocals :
    (written codeSize maxStack locals initLocals more).initLocals = initLocals := by
  unfold written
  split
  · exact (‹FitsTiny _ _ _ _ _›.2.2.2.1).symm
  · rfl

@[simp] theorem written_moreSections :
    (written codeSize maxStack locals initLocals more).moreSections = more := by
  unfold written
  split
  · exact (‹FitsTiny _ _ _ _ _›.2.2.2.2).symm
  · rfl

theorem written_fat_eq_false : (written codeSize maxStack locals initLocals more).fat = false ↔
    FitsTiny codeSize maxStack locals initLocals more := by
  unfold written
  split <;> simp [*]

/-- The stack of a body with a tiny header is that of all such bodies. -/
theorem written_maxStack : (written codeSize maxStack locals initLocals more).maxStack
    = if (written codeSize maxStack locals initLocals more).fat then maxStack
      else tinyMaxStack := by
  unfold written
  split <;> rfl

/-- A tiny header stands for eight slots, and so the stack may come back larger, but never smaller.
-/
theorem le_written_maxStack :
    maxStack ≤ (written codeSize maxStack locals initLocals more).maxStack := by
  unfold written
  split
  · exact ‹FitsTiny _ _ _ _ _›.2.1
  · exact UInt16.le_refl _

theorem fitsTiny_iff : FitsTiny codeSize maxStack locals initLocals more ↔
    codeSize ≤ tinyMaxCode ∧ maxStack ≤ tinyMaxStack ∧ locals = .null ∧ !initLocals ∧ !more := by
  simp [FitsTiny]

/-- Success of the header's reader, which looks at the first byte before it reads. -/
theorem scan_of_format {lead : UInt8} {header : Scan MethodHeader} {h : MethodHeader} {stop : Nat}
    (hLead : data[start]? = some lead)
    (hFormat : header = if lead.toNat % 4 = 2 then scanTiny lead.toNat
      else if lead.toNat % 4 = 3 then scanFat else throw (.headerFormat lead.toNat))
    (hScan : header data start = .ok h stop) (hCode : stop + h.codeSize ≤ data.size) :
    scan data start = .ok h stop := by
  subst hFormat
  simp only [scan, hLead, hScan, if_pos hCode]

/-- One byte gives the size of the code. All other fields have the values that a tiny header
implies. -/
theorem scan_of_tiny (hFits : codeSize ≤ tinyMaxCode)
    (hHolds : data.Holds start [UInt8.ofNat (codeSize * 4 + 2)])
    (hCode : start + 1 + codeSize ≤ data.size) :
    scan data start = .ok ⟨false, 1, codeSize, tinyMaxStack, .null, false, false⟩ (start + 1) := by
  have hSmall : codeSize ≤ 63 := hFits
  have hLead : (UInt8.ofNat (codeSize * 4 + 2)).toNat = codeSize * 4 + 2 := by
    rw [UInt8.toNat_ofNat', Nat.mod_eq_of_lt (by omega)]
  refine scan_of_format (Bytes.holds_cons.1 hHolds).1 rfl ?_ hCode
  have hValue : (codeSize * 4 + 2) / 4 = codeSize := by omega
  rw [hLead, if_pos (by omega), scanTiny, Scan.bind_of_ok (Scan.skip_of_le (by omega)),
    Scan.pure_eq_ok, hValue]
  exact ⟨rfl, rfl⟩

/-- The flags in front of a fat header, from which its reader takes them apart again. -/
theorem fatFlags_parts (initLocals more : Bool) :
    let flags := 3 + 8 * more.toNat + 16 * initLocals.toNat + (fatSize / 4) <<< 12
    flags < 0x10000 ∧ flags % 256 % 4 = 3 ∧ (flags >>> 12) * 4 = fatSize ∧
      flags.testBit 4 = initLocals ∧ flags.testBit 3 = more := by
  cases initLocals <;> cases more <;> decide

theorem scan_of_fat {flags : Nat}
    (hFlags : flags = 3 + 8 * more.toNat + 16 * initLocals.toNat + (fatSize / 4) <<< 12)
    (hHolds : data.Holds start (leBytes 2 flags ++ leBytes 2 maxStack.toNat ++ leBytes 4 codeSize
      ++ leBytes 4 locals.value.toNat)) (hSize : codeSize < 0x100000000)
    (hCode : start + fatSize + codeSize ≤ data.size) :
    scan data start
      = .ok ⟨true, fatSize, codeSize, maxStack, locals, initLocals, more⟩ (start + fatSize) := by
  obtain ⟨hFront, hLocals⟩ := Bytes.holds_append.1 hHolds
  obtain ⟨hFront, hCodeSize⟩ := Bytes.holds_append.1 hFront
  obtain ⟨hLow, hMaxStack⟩ := Bytes.holds_append.1 hFront
  simp only [List.length_append, length_leBytes] at hLocals hCodeSize hMaxStack
  obtain ⟨hRange, hFormat, hWords, hInit, hMore⟩ := fatFlags_parts initLocals more
  rw [← hFlags] at hRange hFormat hWords hInit hMore
  refine scan_of_format (Bytes.holds_cons.1 hLow).1 rfl ?_ hCode
  rw [UInt8.toNat_ofNat', if_neg (by omega), if_pos hFormat, scanFat,
    Scan.bind_of_ok (hLow.scan_leBytes hRange), Scan.bind_of_ok hMaxStack.scan_u16,
    Scan.bind_of_ok (hCodeSize.scan_leBytes hSize), Scan.bind_of_ok hLocals.scan_token, hWords,
    if_pos rfl, hInit, hMore, Scan.pure_eq_ok]
  exact ⟨rfl, rfl⟩

theorem codeSize_lt_of_encode (hEncode : encode codeSize maxStack locals initLocals more = .ok bs) :
    codeSize < 0x100000000 := by
  unfold encode at hEncode
  split at hEncode
  · rename_i hTiny
    have : codeSize ≤ 63 := hTiny.1
    omega
  · split at hEncode
    · assumption
    · cases hEncode

/-- A header is read back, and reading ends where the code starts. -/
theorem scan_of_encode (hEncode : encode codeSize maxStack locals initLocals more = .ok bs)
    (hHolds : data.Holds start bs) (hCode : start + bs.length + codeSize ≤ data.size) :
    scan data start
      = .ok (written codeSize maxStack locals initLocals more) (start + bs.length) := by
  unfold encode at hEncode
  rw [written]
  simp only [← fitsTiny_iff] at hEncode
  split at hEncode
  · rename_i hTiny
    cases hEncode
    rw [if_pos hTiny]
    exact scan_of_tiny hTiny.1 hHolds hCode
  · rename_i hTiny
    split at hEncode
    · rename_i hSize
      cases hEncode
      rw [if_neg hTiny]
      exact scan_of_fat rfl hHolds hSize hCode
    · cases hEncode

end IlSplice.MethodHeader
