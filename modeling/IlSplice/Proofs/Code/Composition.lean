import IlSplice.Proofs.Code.Extent
import IlSplice.Proofs.Code.Grammar

/-! Code as a whole. What is put together from a listing is the sequence of its instructions, each
spelt as it is read, and at the offsets of the layout that was settled on. -/

namespace IlSplice

namespace Instruction

variable {l : Layout} {long : LongForms} {h : Handle} {i : Instruction} {bs : List UInt8}

/-- An instruction is spelt with the opcode that is written and its operand, up to where the layout
has its end. -/
theorem spelt_raw_iff : RawInstruction.Spelt (l.startOf h) bs (i.raw l long h) ↔
    ∃ operand, bs = (i.form (long.getD h false)).encode ++ operand ∧
      RawOperand.Spelt (l.stop long h i) operand (i.operand.raw l.startOf)
        (i.form (long.getD h false)).operand := by
  have hStop : l.stop long h i = l.startOf h + (i.raw l long h).size := rfl
  constructor
  · rintro ⟨_, hSize, operand, rfl, hSpelt⟩
    refine ⟨operand, rfl, ?_⟩
    rwa [hStop, hSize]
  · rintro ⟨operand, rfl, hSpelt⟩
    have hSize : (i.raw l long h).size
        = ((i.form (long.getD h false)).encode ++ operand).length := by
      rw [List.length_append, Opcode.length_encode, Operand.length_of_spelt hSpelt]
      rfl
    exact ⟨rfl, hSize, operand, rfl, by rwa [← hSize]⟩

end Instruction

namespace RawInstruction

variable {l : Layout} {long : LongForms} {h : Handle} {i : Instruction} {start : Nat}
  {bs : List UInt8} {code : Bytes} {k : Nat} {raw : RawInstruction}
  {raws more : List RawInstruction} {entries : List (Handle × Instruction)}

/-- A sequence may be cut between any two instructions, and the second part then counts from where
the first one ends. -/
theorem sequence_append_iff : Sequence start bs (raws ++ more) ↔
    ∃ before behind, bs = before ++ behind ∧ Sequence start before raws ∧
      Sequence (start + before.length) behind more := by
  constructor
  · intro hSequence
    induction raws generalizing start bs with
    | nil => exact ⟨[], bs, rfl, .nil start, hSequence⟩
    | cons raw raws ih =>
        cases hSequence with
        | @cons _ first _ _ _ hFirst hLater =>
            obtain ⟨before, behind, rfl, hBefore, hBehind⟩ := ih hLater
            refine ⟨first ++ before, behind, (List.append_assoc ..).symm, .cons hFirst hBefore, ?_⟩
            rwa [List.length_append, ← Nat.add_assoc]
  · rintro ⟨before, behind, rfl, hBefore, hBehind⟩
    induction hBefore with
    | nil => exact hBehind
    | cons hFirst _ ih =>
        rw [List.length_append, ← Nat.add_assoc] at hBehind
        rw [List.append_assoc]
        exact .cons hFirst (ih hBehind)

/-- Every instruction of a sequence is spelt somewhere in it. -/
theorem Sequence.spelt_of_mem (hSequence : Sequence start bs raws) (hMem : raw ∈ raws) :
    ∃ chunk, Spelt raw.offset chunk raw := by
  obtain ⟨before, behind, rfl⟩ := List.append_of_mem hMem
  obtain ⟨_, _, _, _, hLater⟩ := sequence_append_iff.1 hSequence
  cases hLater with
  | cons hFirst _ => exact ⟨_, by rwa [hFirst.1]⟩

/-- A sequence has its instructions where a layout puts them that has the same offsets. -/
theorem Sequence.places
    (hSequence : Sequence start bs (entries.map fun entry => entry.2.raw l long entry.1))
    (hSize : l.size = start + bs.length) : l.Places long start entries := by
  induction entries generalizing start bs with
  | nil =>
      cases hSequence
      exact hSize
  | cons entry rest ih =>
      cases hSequence with
      | cons hFirst hLater =>
          have hLength : entry.2.encodedSize (long.getD entry.1 false) = _ := hFirst.2.1
          rw [← hLength] at hLater
          rw [List.length_append, ← hLength, ← Nat.add_assoc] at hSize
          exact ⟨hFirst.1, ih hLater hSize⟩

/-- The first instruction of a sequence takes the bytes up to its end, and the sequence goes on
there. -/
theorem sequence_cons_iff : Sequence (l.startOf h) bs (i.raw l long h :: raws) ↔
    ∃ operand tail, bs = (i.form (long.getD h false)).encode ++ operand ++ tail ∧
      RawOperand.Spelt (l.stop long h i) operand (i.operand.raw l.startOf)
        (i.form (long.getD h false)).operand ∧ Sequence (l.stop long h i) tail raws := by
  have hStop : l.stop long h i = l.startOf h + (i.raw l long h).size := rfl
  constructor
  · intro hSequence
    cases hSequence with
    | cons first later =>
        obtain ⟨operand, rfl, hSpelt⟩ := Instruction.spelt_raw_iff.1 first
        rw [← first.2.1, ← hStop] at later
        exact ⟨operand, _, rfl, hSpelt, later⟩
  · rintro ⟨operand, tail, rfl, hSpelt, hLater⟩
    have hFirst := Instruction.spelt_raw_iff.2 ⟨operand, rfl, hSpelt⟩
    rw [hStop, hFirst.2.1] at hLater
    exact .cons hFirst hLater

/-- Instructions of which each has a spelling make up a sequence. -/
theorem exists_sequence (hPlaces : l.Places long start entries)
    (hEach : ∀ entry ∈ entries, ∃ bs, RawOperand.Spelt (l.stop long entry.1 entry.2) bs
      (entry.2.operand.raw l.startOf) (entry.2.form (long.getD entry.1 false)).operand) :
    ∃ bs, Sequence start bs (entries.map fun entry => entry.2.raw l long entry.1) := by
  induction entries generalizing start with
  | nil => exact ⟨[], .nil start⟩
  | cons entry rest ih =>
      obtain ⟨rfl, hRest⟩ := hPlaces
      rw [List.forall_mem_cons] at hEach
      obtain ⟨operand, hOperand⟩ := hEach.1
      obtain ⟨tail, hTail⟩ := ih hRest hEach.2
      exact ⟨_, sequence_cons_iff.2 ⟨operand, tail, rfl, hOperand, hTail⟩⟩

/-- The first instruction starts where the sequence does. Without one, the sequence ends there. -/
theorem Sequence.head_offset (hSequence : Sequence start bs raws) :
    (raws[0]?.map (·.offset)).getD (start + bs.length) = start := by
  cases hSequence with
  | nil => rfl
  | cons hFirst _ => exact hFirst.1

/-- Each instruction of a sequence takes the bytes up to the next one, and the last one those up to
the end. -/
theorem Sequence.spelt_extract (hSequence : Sequence 0 code.toList raws)
    (hRaw : raws[k]? = some raw) :
    Spelt raw.offset (code.extract raw.offset (raw.offset + raw.size)).toList raw ∧
      (raws[k + 1]?.map (·.offset)).getD code.size = raw.offset + raw.size := by
  obtain ⟨hk, rfl⟩ := List.getElem?_eq_some_iff.1 hRaw
  rw [← List.take_append_drop k raws, List.drop_eq_getElem_cons hk] at hSequence
  obtain ⟨before, behind, hCode, _, hLater⟩ := sequence_append_iff.1 hSequence
  rw [Nat.zero_add] at hLater
  have hNext : raws[k + 1]? = (raws.drop (k + 1))[0]? := by simp
  rw [hNext]
  generalize raws.drop (k + 1) = later at hLater
  cases hLater with
  | @cons _ chunk rest _ _ hFirst hLater =>
      have hChunk : (code.extract raws[k].offset (raws[k].offset + raws[k].size)).toList
          = chunk := by
        rw [hFirst.1, hFirst.2.1, Array.toList_extract, hCode, List.extract_eq_take_drop,
          Nat.add_sub_cancel_left, List.drop_left, List.take_left]
      rw [hChunk, hFirst.1, hFirst.2.1]
      refine ⟨hFirst, ?_⟩
      have hSize : code.size = before.length + chunk.length + rest.length := by
        simpa [Nat.add_assoc] using congrArg List.length hCode
      rw [hSize]
      exact hLater.head_offset

end RawInstruction

namespace Encoded

open RawInstruction

variable {σ : Type} {intern : Interner σ} {l : Layout} {long : LongForms} {listing : Listing}
  {entries : List (Handle × Instruction)} {s s' : σ} {code code' : Bytes} {e : Encoded}
  {start : Nat}

/-- Putting instructions behind the code appends the bytes that they are spelt with, after their
literals were given tokens. -/
theorem emit_eq_ok (hPlaces : l.Places long start entries) :
    emit l long intern entries code s = .ok code' s' ↔
      ∃ interned bs, Listing.internAll intern entries s = .ok interned s' ∧
        code' = code ++ bs.toArray ∧
        (∀ entry ∈ interned, ∀ target ∈ entry.2.targets, target < l.starts.size) ∧
        Sequence start bs (interned.map fun entry => entry.2.raw l long entry.1) := by
  induction entries generalizing start code s with
  | nil =>
      constructor
      · intro hEmit
        obtain ⟨rfl, rfl⟩ := Edit.pure_eq_ok.1 hEmit
        exact ⟨[], [], rfl, by simp, by simp, .nil start⟩
      · rintro ⟨interned, bs, hIntern, rfl, _, hSequence⟩
        obtain ⟨rfl, rfl⟩ := Edit.pure_eq_ok.1 hIntern
        cases hSequence
        exact Edit.pure_eq_ok.2 ⟨by simp, rfl⟩
  | cons entry rest ih =>
      obtain ⟨h, i⟩ := entry
      obtain ⟨rfl, hRest⟩ := hPlaces
      change l.Places long (l.stop long h i) rest at hRest
      constructor
      · intro hEmit
        obtain ⟨bs, middle, hOperand, hEmit⟩ := Edit.bind_eq_ok.1 hEmit
        obtain ⟨operand, hIntern, hTargets, hSpelt⟩ := Operand.encode_eq_ok.1 hOperand
        obtain ⟨tail, later, hTail, rfl, hTargets', hSequence⟩ := (ih hRest).1 hEmit
        rw [← Instruction.stop_of_isInterned (Operand.isInterned_of_intern hIntern) l long h]
          at hSpelt hSequence
        exact ⟨_, _, Listing.internAll_cons_eq_ok.2 ⟨operand, middle, tail, hIntern, hTail, rfl⟩,
          by simp [Instruction.form], List.forall_mem_cons.2 ⟨hTargets, hTargets'⟩,
          sequence_cons_iff.2 ⟨bs, later, rfl, hSpelt, hSequence⟩⟩
      · rintro ⟨_, _, hIntern, rfl, hTargets, hSequence⟩
        obtain ⟨operand, middle, tail, hOperand, hTail, rfl⟩ :=
          Listing.internAll_cons_eq_ok.1 hIntern
        obtain ⟨hTargets, hTargets'⟩ := List.forall_mem_cons.1 hTargets
        obtain ⟨bs, later, rfl, hSpelt, hSequence⟩ := sequence_cons_iff.1 hSequence
        rw [Instruction.stop_of_isInterned (Operand.isInterned_of_intern hOperand) l long h]
          at hSpelt hSequence
        exact Edit.bind_eq_ok.2 ⟨bs, middle,
          Operand.encode_eq_ok.2 ⟨operand, hOperand, hTargets, hSpelt⟩,
          (ih hRest).2 ⟨tail, later, hTail, by simp [Instruction.form], hTargets', hSequence⟩⟩

/-- What code is put together from a listing. -/
theorem ofListing_eq_ok : ofListing listing intern s = .ok e s' ↔
    ∃ l long interned, LongForms.settle listing (LongForms.none listing) = .ok (l, long) ∧
      listing.interned intern s = .ok interned s' ∧
      (∀ entry ∈ interned, ∀ target ∈ entry.2.targets, target < l.starts.size) ∧
      Sequence 0 e.code.toList (interned.map fun entry => entry.2.raw l long entry.1) ∧
      e.widened = long.count true ∧ e.starts = l.starts := by
  constructor
  · intro hEncode
    obtain ⟨⟨l, long⟩, middle, hCheck, hEncode⟩ := Edit.bind_eq_ok.1 hEncode
    obtain ⟨code, last, hEmit, hPure⟩ := Edit.bind_eq_ok.1 hEncode
    obtain ⟨rfl, rfl⟩ := Edit.pure_eq_ok.1 hPure
    obtain ⟨hSettle, rfl⟩ := Edit.check_eq_ok.1 hCheck
    have hPlaces := Layout.places_of_ofListing (LongForms.settle_eq_ok hSettle).1
    obtain ⟨interned, bs, hIntern, rfl, hTargets, hSequence⟩ := (emit_eq_ok hPlaces).1 hEmit
    exact ⟨l, long, interned, hSettle, hIntern, hTargets, by simpa using hSequence, rfl, rfl⟩
  · rintro ⟨l, long, interned, hSettle, hIntern, hTargets, hSequence, hWidened, hStarts⟩
    have hPlaces := Layout.places_of_ofListing (LongForms.settle_eq_ok hSettle).1
    obtain ⟨code, widened, starts⟩ := e
    obtain rfl : widened = long.count true := hWidened
    obtain rfl : starts = l.starts := hStarts
    refine Edit.bind_eq_ok.2 ⟨(l, long), s, Edit.check_eq_ok.2 ⟨hSettle, rfl⟩, ?_⟩
    exact Edit.bind_eq_ok.2 ⟨code, s', (emit_eq_ok hPlaces).2
      ⟨interned, code.toList, hIntern, by simp, hTargets, hSequence⟩, rfl⟩

end Encoded

end IlSplice
