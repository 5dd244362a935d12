import IlSplice.Code.Decoded
import IlSplice.Proofs.Bytes.Reading

/-! Opcodes in code: no two share a value, and the bytes of an opcode are read back as that
opcode. -/

namespace IlSplice.Opcode

/-- The list leaves out no opcode, so that what is decided for its members holds for all. -/
theorem mem_all (op : Opcode) : op ∈ all := by
  have hLt : op.ctorIdx < 219 := by cases op <;> decide
  exact List.mem_map.2 ⟨op.ctorIdx, List.mem_range.2 hLt, ofNat_ctorIdx op⟩

/-- The opcodes are listed by increasing value, so that no value stands for two of them. -/
theorem ofValue?_value (op : Opcode) : ofValue? op.value = some op := by
  have hChain : all.IsChain (fun a b => a.value < b.value) := by decide +kernel
  have hIncreasing := List.isChain_iff_pairwise.1 hChain
  obtain ⟨before, after, hSplit⟩ := List.append_of_mem op.mem_all
  rw [hSplit, List.pairwise_append] at hIncreasing
  rw [ofValue?, hSplit, List.find?_append, List.find?_eq_none.2, Option.none_or,
    List.find?_cons_of_pos (by simp)]
  intro other hOther
  have := hIncreasing.2.2 other hOther op (by simp)
  simpa using Nat.ne_of_lt this

/-- Values beyond one byte all start with the escape byte, which is no opcode by itself. -/
theorem value_form (op : Opcode) :
    if op.value > 0xFF then op.value / 256 = escape else op.value ≠ escape := by
  have hAll : ∀ op ∈ all,
      if op.value > 0xFF then op.value / 256 = escape else op.value ≠ escape := by decide +kernel
  exact hAll op op.mem_all

theorem size_pos (op : Opcode) : 0 < op.size := by
  unfold size
  split <;> decide

@[simp] theorem length_encode (op : Opcode) : op.encode.length = op.size := by
  unfold encode size
  split <;> rfl

/-- Opcodes of two bytes start with a byte that is no opcode of its own, and so each is read back as
itself. -/
theorem scanValue_of_holds {op : Opcode} {code : Bytes} {position : Nat}
    (h : code.Holds position op.encode) :
    scanValue code position = .ok op.value (position + op.size) := by
  have hForm := op.value_form
  unfold encode at h
  unfold scanValue size
  by_cases hLarge : op.value > 0xFF
  · rw [if_pos hLarge] at h hForm ⊢
    rw [← List.singleton_append] at h
    obtain ⟨hFirst, hSecond⟩ := Bytes.holds_append.1 h
    rw [List.length_singleton] at hSecond
    rw [Scan.bind_of_ok hFirst.scan_byte]
    change (do return escape * 256 + (← Scan.uint 1) : Scan Nat) code (position + 1) = _
    rw [Scan.bind_of_ok hSecond.scan_byte, Scan.pure_eq_ok, UInt8.toNat_ofNat']
    refine ⟨?_, rfl⟩
    omega
  · rw [if_neg hLarge] at h hForm ⊢
    have hValue : (UInt8.ofNat op.value).toNat = op.value := by
      rw [UInt8.toNat_ofNat']
      omega
    rw [Scan.bind_of_ok h.scan_byte, hValue, if_neg hForm, Scan.pure_eq_ok]
    exact ⟨rfl, rfl⟩

/-- Exactly the short branches have a long form, and it is a long branch. -/
theorem long?_form (op : Opcode) :
    op.long?.map operand = if op.operand = .shortBranch then some .branch else none := by
  have hAll : ∀ op ∈ all,
      op.long?.map operand = if op.operand = .shortBranch then some .branch else none := by
    decide +kernel
  exact hAll op op.mem_all

end IlSplice.Opcode
