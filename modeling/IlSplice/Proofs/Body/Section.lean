import IlSplice.Proofs.Body.Normalized

/-! The section that is put behind data for a list of clauses. It is the smallest one that has room
for them, it is read back whatever follows it, and where there is none nothing is written. -/

namespace IlSplice

namespace Clause

variable {clauses : List Clause} {fat : Bool} {bs : List UInt8} {data out : Bytes} {fault : Fault}

/-- A small section has room for the clauses and for each of their fields. -/
structure HasSmallForm (clauses : List Clause) : Prop where
  size_le : 4 + 12 * clauses.length ≤ 255
  tryOffset_le : ∀ c ∈ clauses, c.tryOffset.toNat ≤ 65535
  tryLength_le : ∀ c ∈ clauses, c.tryLength.toNat ≤ 255
  handlerOffset_le : ∀ c ∈ clauses, c.handlerOffset.toNat ≤ 65535
  handlerLength_le : ∀ c ∈ clauses, c.handlerLength.toNat ≤ 255

/-- The section of the clauses in one of the forms: its flags, its size and the clauses. -/
def sectionBytes (fat : Bool) (clauses : List Clause) : List UInt8 :=
  SectionFlags.toByte ⟨true, false, fat, false⟩
    :: leBytes 3 (4 + (if fat then 24 else 12) * clauses.length)
    ++ clauses.flatMap (encode fat)

theorem length_sectionBytes : (sectionBytes fat clauses).length
    = 4 + (if fat then 24 else 12) * clauses.length := by
  rw [sectionBytes, List.length_append, List.length_cons, length_leBytes, length_flatMap_encode,
    Clause.size, Nat.mul_comm]

theorem hasSmallForm_iff : HasSmallForm clauses ↔
    4 + clauses.length * Clause.size false < 0x100 ∧ clauses.all fitsSmall := by
  simp only [List.all_eq_true, fitsSmall, Bool.and_eq_true, decide_eq_true_eq]
  rw [Clause.size, if_neg (by decide)]
  constructor
  · intro h
    refine ⟨by have := h.size_le; omega, fun c hMem => ?_⟩
    have := h.tryOffset_le c hMem
    have := h.tryLength_le c hMem
    have := h.handlerOffset_le c hMem
    have := h.handlerLength_le c hMem
    omega
  · rintro ⟨hSize, hFields⟩
    constructor
    · omega
    all_goals
      intro c hMem
      have := hFields c hMem
      omega

theorem encodeSection_of_small (hSmall : HasSmallForm clauses) :
    encodeSection clauses = .ok (sectionBytes false clauses) := by
  have hSize : leBytes 3 (4 + 12 * clauses.length)
      = UInt8.ofNat (4 + 12 * clauses.length) :: leBytes 2 0 := by
    rw [leBytes, Nat.div_eq_of_lt (Nat.lt_succ_of_le hSmall.size_le)]
  unfold encodeSection
  dsimp only
  rw [if_pos (hasSmallForm_iff.1 hSmall), sectionBytes, Clause.size, if_neg (by decide),
    Nat.mul_comm, hSize, List.cons_append]

/-- The fat form is taken for everything else that has a form at all. -/
theorem encodeSection_of_not_small (hSmall : ¬ HasSmallForm clauses)
    (hFew : clauses.length ≤ 699050) :
    encodeSection clauses = .ok (sectionBytes true clauses) := by
  have hFat : 4 + clauses.length * Clause.size true < 0x1000000 := by
    rw [Clause.size, if_pos rfl]
    omega
  unfold encodeSection
  dsimp only
  rw [if_neg (mt hasSmallForm_iff.2 hSmall), if_pos hFat, sectionBytes, Clause.size, if_pos rfl,
    Nat.mul_comm]

/-- In the smallest form that has room for them there are sections for so many clauses. -/
theorem encodeSection_eq_ok : encodeSection clauses = .ok bs ↔ clauses.length ≤ 699050 ∧
    ∃ fat, (fat = false ↔ HasSmallForm clauses) ∧ bs = sectionBytes fat clauses := by
  constructor
  · intro hEncode
    have hFew : clauses.length ≤ 699050 := by
      by_contra hMany
      rw [encodeSection_of_lt (Nat.lt_of_not_le hMany)] at hEncode
      cases hEncode
    refine ⟨hFew, ?_⟩
    by_cases hSmall : HasSmallForm clauses
    · rw [encodeSection_of_small hSmall] at hEncode
      exact ⟨false, by simpa using hSmall, (Except.ok.inj hEncode).symm⟩
    · rw [encodeSection_of_not_small hSmall hFew] at hEncode
      exact ⟨true, by simpa using hSmall, (Except.ok.inj hEncode).symm⟩
  · rintro ⟨hFew, fat, hForm, rfl⟩
    cases fat with
    | false => exact encodeSection_of_small (hForm.1 rfl)
    | true => exact encodeSection_of_not_small (by simpa using hForm) hFew

/-- Only the number of clauses can be wrong, and the message gives the number. -/
theorem encodeSection_eq_error : encodeSection clauses = .error fault ↔
    699050 < clauses.length ∧ fault = .tooManyClauses clauses.length := by
  constructor
  · intro hError
    have hMany : 699050 < clauses.length := by
      by_contra hFew
      obtain ⟨bs, hBytes⟩ := encodeSection_of_le (Nat.le_of_not_lt hFew)
      rw [hBytes] at hError
      cases hError
    rw [encodeSection_of_lt hMany] at hError
    cases hError
    exact ⟨hMany, rfl⟩
  · rintro ⟨hMany, rfl⟩
    exact encodeSection_of_lt hMany

theorem appendSection_eq_ok : appendSection clauses data = .ok () out ↔
    ∃ bs, encodeSection clauses = .ok bs ∧ out = data ++ bs.toArray :=
  Edit.extend_eq_ok

/-- Where there is no section for the clauses the data stays as it is. -/
theorem appendSection_eq_error : appendSection clauses data = .error fault out ↔
    encodeSection clauses = .error fault ∧ out = data :=
  Edit.extend_eq_error

/-- A section that stands at a multiple of four is read where it stands, whatever follows. -/
theorem ofSections_of_encodeSection (hEncode : encodeSection clauses = .ok bs)
    (hFlags : ∀ c ∈ clauses, c.flags.bits.toNat < 8) (hAligned : 4 ∣ data.size)
    (trailing : Bytes) :
    ofSections (data ++ bs.toArray ++ trailing) data.size = .ok clauses := by
  have hHolds : Bytes.Holds (data ++ bs.toArray ++ trailing) (0 + alignUp data.size 4) bs := by
    rw [alignUp_of_dvd (by decide) hAligned, Nat.zero_add]
    exact Bytes.holds_middle data bs trailing
  have hSection := scanSection_of_encodeSection hEncode hFlags hHolds
  rw [Nat.zero_add] at hSection
  have hSeek : Scan.seek data.size (data ++ bs.toArray ++ trailing) 0 = .ok () data.size := by
    refine if_pos ?_
    rw [Array.append_assoc, Array.size_append]
    exact Nat.le_add_right _ _
  rw [ofSections, Scan.evalAt_eq_ok]
  exact ⟨_, (Scan.bind_of_ok hSeek).trans (scanSections_of_last hSection)⟩

/-- Clauses survive being put behind data that ends at a multiple of four, whatever follows them.
Their section is small if they have a small form and else fat. There is none for them if a fat one
has no room either, and the data is left as it is. -/
theorem ofSections_appendSection (hFlags : ∀ c ∈ clauses, c.flags.bits.toNat < 8)
    (hAligned : 4 ∣ data.size) (trailing : Bytes) :
    (∀ out, appendSection clauses data = .ok () out →
      ofSections (out ++ trailing) data.size = .ok clauses ∧
      ∃ fat, (fat = false ↔ HasSmallForm clauses) ∧
        out = data ++ (sectionBytes fat clauses).toArray ∧
        out.size = data.size + (4 + (if fat then 24 else 12) * clauses.length)) ∧
    (∀ fault out, appendSection clauses data = .error fault out →
      out = data ∧ fault = .tooManyClauses clauses.length ∧ ¬ HasSmallForm clauses) ∧
    ((∃ fault out, appendSection clauses data = .error fault out) ↔
      0xFFFFFF < 4 + 24 * clauses.length) := by
  refine ⟨fun out hAppend => ?_, fun fault out hAppend => ?_, ?_⟩
  · obtain ⟨bs, hEncode, rfl⟩ := appendSection_eq_ok.1 hAppend
    obtain ⟨-, fat, hForm, rfl⟩ := encodeSection_eq_ok.1 hEncode
    refine ⟨ofSections_of_encodeSection hEncode hFlags hAligned trailing, fat, hForm, rfl, ?_⟩
    rw [Array.size_append]
    exact congrArg (data.size + ·) length_sectionBytes
  · obtain ⟨hEncode, rfl⟩ := appendSection_eq_error.1 hAppend
    obtain ⟨hMany, hFault⟩ := encodeSection_eq_error.1 hEncode
    refine ⟨rfl, hFault, fun hSmall => ?_⟩
    have := hSmall.size_le
    omega
  · simp only [appendSection_eq_error, encodeSection_eq_error]
    constructor
    · rintro ⟨_, _, ⟨hMany, -⟩, -⟩
      omega
    · intro hMany
      exact ⟨_, _, ⟨by omega, rfl⟩, rfl⟩

/-- A clause with a small form in front of one whose region is too long for it. -/
def finallyThenCatch : List Clause := [⟨⟨2⟩, 0, 8, 8, 3, 0⟩, ⟨⟨0⟩, 0, 0x100, 0x100, 5, 0x1000001⟩]

/-- The longer of the two makes the section fat. -/
theorem ofSections_appendSection_finallyThenCatch :
    ∃ out, appendSection finallyThenCatch #[0, 0, 0, 0] = .ok () out ∧
      ofSections (out ++ #[0x2A]) 4 = .ok finallyThenCatch ∧ out.size = 4 + 52 := by
  have hFlags : ∀ c ∈ finallyThenCatch, c.flags.bits.toNat < 8 := by decide
  have hAligned : 4 ∣ Array.size (#[0, 0, 0, 0] : Bytes) := by decide
  obtain ⟨hWritten, -, hError⟩ := ofSections_appendSection hFlags hAligned #[0x2A]
  cases hAppend : appendSection finallyThenCatch #[0, 0, 0, 0] with
  | error fault out => exact absurd (hError.1 ⟨fault, out, hAppend⟩) (by decide)
  | ok _ out =>
      obtain ⟨hRead, fat, hForm, -, hSize⟩ := hWritten out hAppend
      have hFat : fat = true := by
        by_contra hSmall
        have := (hForm.1 (by simpa using hSmall)).tryLength_le _ (List.mem_cons_of_mem _
          List.mem_cons_self)
        exact absurd this (by decide)
      subst hFat
      exact ⟨out, rfl, hRead, hSize⟩

end Clause

namespace MethodBody

/-- The clauses of a body are put behind its header and code, which are filled up for them. -/
theorem assemble_eq_appendSection {code : Bytes} {maxStack : UInt16} {locals : Token}
    {initLocals : Bool} {clauses : List Clause} (hSome : clauses ≠ []) :
    assemble code maxStack locals initLocals clauses = do
      let header ← MethodHeader.encode code.size maxStack locals initLocals true
      let (written, out) :=
        (Clause.appendSection clauses).runOn (Bytes.padTo (header.toArray ++ code) 4)
      written
      return out := by
  have hMore : clauses.isEmpty = false := by simpa using hSome
  unfold assemble
  rw [hMore, Bool.not_false]
  refine congrArg (MethodHeader.encode code.size maxStack locals initLocals true >>= ·)
    (funext fun header => ?_)
  rw [if_neg (by decide)]
  cases hBytes : Clause.encodeSection clauses with
  | error fault =>
      rw [Edit.runOn, Clause.appendSection_eq_error.2 ⟨hBytes, rfl⟩]
      rfl
  | ok bytes =>
      rw [Edit.runOn, Clause.appendSection_eq_ok.2 ⟨bytes, hBytes, rfl⟩]
      rfl

end MethodBody

end IlSplice
