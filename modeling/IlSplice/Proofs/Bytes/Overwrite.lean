import IlSplice.Proofs.Bytes.Window

/-! Fields that are overwritten in place. Each field holds what was written last, and all bytes that
no field has are the bytes from before. -/

namespace IlSplice.Bytes

/-- A run of bytes in a file, from `start` up to `stop`. -/
structure Span where
  start : Nat
  stop : Nat
  deriving DecidableEq, Repr

/-- A run of `width` bytes. -/
def Span.ofWidth (start width : Nat) : Span := ⟨start, start + width⟩

/-- The number that the bytes of a run encode. -/
def Span.number (s : Span) (data : Bytes) : Nat := data.uintAt s.start (s.stop - s.start)

theorem Span.number_ofWidth (start width : Nat) (data : Bytes) :
    (ofWidth start width).number data = data.uintAt start width := by
  simp [number, ofWidth]

/-- Two runs of bytes have no byte in common. -/
def Span.Apart (a b : Span) : Prop := a.stop ≤ b.start ∨ b.stop ≤ a.start

instance (a b : Span) : Decidable (a.Apart b) := inferInstanceAs (Decidable (_ ∨ _))

theorem Span.Apart.symm {a b : Span} (h : a.Apart b) : b.Apart a := Or.symm h

theorem Span.Apart.mono {a b c : Span} (h : a.Apart b) (hStart : b.start ≤ c.start)
    (hStop : c.stop ≤ b.stop) : a.Apart c :=
  h.imp (fun h => Nat.le_trans h hStart) (fun h => Nat.le_trans hStop h)

/-- New bytes for a place in the file. -/
structure Field where
  offset : Nat
  bytes : List UInt8

/-- Where the field is. -/
def Field.span (f : Field) : Span := ⟨f.offset, f.offset + f.bytes.length⟩

/-- The second byte string is the first one with fields overwritten one after the other. -/
inductive Overwrites : Bytes → List Field → Bytes → Prop where
  | nil {data : Bytes} : Overwrites data [] data
  | cons {data middle out : Bytes} {f : Field} {rest : List Field}
      (first : data.overwrite f.offset f.bytes = .ok middle) (others : Overwrites middle rest out) :
      Overwrites data (f :: rest) out

variable {data middle out : Bytes} {offset i : Nat} {bs : List UInt8} {fields more : List Field}

/-- Overwriting is local: all other bytes are what they were. -/
theorem getElem?_write_of_outside (hOutside : i < offset ∨ offset + bs.length ≤ i) :
    (overwrite.write data offset bs)[i]? = data[i]? := by
  induction bs generalizing data offset with
  | nil => rfl
  | cons b rest ih =>
      rw [List.length_cons] at hOutside
      rw [overwrite.write, ih (by omega), Array.getElem?_setIfInBounds_ne (by omega)]

theorem holds_write (hFits : offset + bs.length ≤ data.size) :
    (overwrite.write data offset bs).Holds offset bs := by
  induction bs generalizing data offset with
  | nil => simpa [overwrite.write, holds_nil] using hFits
  | cons b rest ih =>
      rw [List.length_cons] at hFits
      rw [holds_cons, overwrite.write]
      refine ⟨?_, ih (by rw [Array.size_setIfInBounds]; omega)⟩
      rw [getElem?_write_of_outside (by omega), Array.getElem?_setIfInBounds_self_of_lt (by omega)]

/-- A field is overwritten only where all of it fits, so that nothing is cut off. -/
theorem overwrite_eq_ok (h : data.overwrite offset bs = .ok out) :
    offset + bs.length ≤ data.size ∧ out = overwrite.write data offset bs := by
  unfold overwrite at h
  split at h
  · cases h
    exact ⟨‹_›, rfl⟩
  · cases h

theorem Overwrites.size_eq (h : Overwrites data fields out) : out.size = data.size := by
  induction h with
  | nil => rfl
  | cons first _ ih =>
      obtain ⟨_, rfl⟩ := overwrite_eq_ok first
      rw [ih, size_write]

theorem Overwrites.append (h : Overwrites data fields middle) (h' : Overwrites middle more out) :
    Overwrites data (fields ++ more) out := by
  induction h with
  | nil => exact h'
  | cons first _ ih => exact .cons first (ih h')

/-- A run over two lists goes through the file that the first list leaves. -/
theorem Overwrites.split (h : Overwrites data (fields ++ more) out) :
    ∃ middle, Overwrites data fields middle ∧ Overwrites middle more out := by
  induction fields generalizing data with
  | nil => exact ⟨data, .nil, h⟩
  | cons f rest ih =>
      cases h with
      | cons first others =>
          obtain ⟨middle, hRest, hMore⟩ := ih others
          exact ⟨middle, .cons first hRest, hMore⟩

/-- Where no field is, nothing changes. -/
theorem Overwrites.agree (h : Overwrites data fields out) {s : Span}
    (hApart : ∀ f ∈ fields, f.span.Apart s) : data.Agree out s.start s.stop := by
  induction h with
  | nil => exact fun _ _ _ => rfl
  | cons first _ ih =>
      rw [List.forall_mem_cons] at hApart
      obtain ⟨_, rfl⟩ := overwrite_eq_ok first
      refine Agree.trans (fun i hStart hStop => ?_) (ih hApart.2)
      have hOutside := hApart.1
      simp only [Span.Apart, Field.span] at hOutside
      rw [getElem?_write_of_outside (by omega)]

/-- A field holds its new bytes if no later one touches them. -/
theorem Overwrites.holds_of_later {f : Field} (h : Overwrites data (fields ++ f :: more) out)
    (hApart : ∀ g ∈ more, f.span.Apart g.span) : out.Holds f.offset f.bytes := by
  obtain ⟨middle, _, hRest⟩ := h.split
  cases hRest with
  | cons first others =>
      obtain ⟨hFits, rfl⟩ := overwrite_eq_ok first
      refine (holds_write hFits).congr (others.agree (s := f.span) fun g hg => ?_) ?_
      · exact (hApart g hg).symm
      · rw [others.size_eq, size_write]
        exact hFits

/-- The bytes of a field from some place on are kept if the later fields do not touch these. -/
theorem Overwrites.holds_drop {f : Field} {n : Nat} (h : Overwrites data (f :: more) out)
    (hn : n ≤ f.bytes.length)
    (hApart : ∀ g ∈ more, g.span.Apart ⟨f.offset + n, f.offset + f.bytes.length⟩) :
    out.Holds (f.offset + n) (f.bytes.drop n) := by
  cases h with
  | cons first others =>
      obtain ⟨hFits, rfl⟩ := overwrite_eq_ok first
      have hEnd : f.offset + n + (f.bytes.drop n).length = f.offset + f.bytes.length := by
        rw [List.length_drop]
        omega
      refine ((holds_write hFits).drop hn).congr ?_ ?_
      · rw [hEnd]
        exact others.agree hApart
      · rw [hEnd, others.size_eq, size_write]
        exact hFits

/-- Fields that lie apart all hold their new bytes. -/
theorem Overwrites.holds (h : Overwrites data fields out)
    (hApart : fields.Pairwise fun f g => f.span.Apart g.span) {f : Field} (hMem : f ∈ fields) :
    out.Holds f.offset f.bytes := by
  obtain ⟨before, after, rfl⟩ := List.append_of_mem hMem
  rw [List.pairwise_append, List.pairwise_cons] at hApart
  exact h.holds_of_later hApart.2.1.1

/-- Bytes beyond the old end are new, and the others are the old ones. -/
theorem agree_resize (data : Bytes) {size : Nat} (hSize : data.size ≤ size) :
    data.Agree (data.resize size) 0 data.size := by
  intro i _ hi
  rw [resize, Array.extract_eq_self_of_le hSize, Array.getElem?_append_left hi]

@[simp] theorem size_resize (data : Bytes) (size : Nat) : (data.resize size).size = size := by
  simp [resize]
  omega

end IlSplice.Bytes
