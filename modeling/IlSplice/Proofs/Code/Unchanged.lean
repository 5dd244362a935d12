import IlSplice.Proofs.Code.Composition
import IlSplice.Proofs.Code.Widening

/-! Code that is taken apart and put together again. All of it stays where it was: no branch takes
another form, and no token is asked for, because every literal still has the one that it was read
with. -/

namespace IlSplice

namespace LongForms

variable {long : LongForms} {l : Layout} {start : Nat} {bs : List UInt8}
  {entries : List (Handle × Instruction)}

/-- Branches that are spelt reach their targets. -/
theorem outOfReach_of_sequence
    (hTargets : ∀ entry ∈ entries, ∀ target ∈ entry.2.targets, target < l.starts.size)
    (hSequence : RawInstruction.Sequence start bs
      (entries.map fun entry => entry.2.raw l long entry.1)) :
    long.outOfReach l entries [] = .ok [] := by
  rcases hFound : long.outOfReach l entries [] with fault | far
  · obtain ⟨entry, hMem, target, hTarget, hWay⟩ := displacement_of_outOfReach_eq_error hFound
    have hInside := hTargets entry hMem target (Instruction.mem_targets_of_shortTarget? hTarget)
    rw [Layout.displacement_eq_ok.2 ⟨hInside, rfl⟩] at hWay
    cases hWay
  · refine congrArg _ (List.eq_nil_iff_forall_not_mem.2 fun h hFar => ?_)
    rcases (mem_outOfReach hFound).1 hFar with
      hNone | ⟨i, hMem, target, n, hTarget, hShort, hWay, hFits⟩
    · cases hNone
    obtain ⟨hKind, hOperand⟩ := Instruction.shortTarget?_eq_some hTarget
    obtain ⟨_, hSpelt⟩ := hSequence.spelt_of_mem (List.mem_map_of_mem hMem)
    obtain ⟨operand, -, hSpelt⟩ := Instruction.spelt_raw_iff.1 hSpelt
    have hForm : i.form (long.getD h false) = i.opcode := by
      rw [Array.getD_eq_getD_getElem?, hShort]
      rfl
    rw [hForm, hOperand, hKind] at hSpelt
    obtain ⟨value, -, hSpelt⟩ := hSpelt
    have hValue : value.toInt = n := by
      have := RawOperand.target.inj hSpelt
      have := (Layout.displacement_eq_ok.1 hWay).2
      omega
    rw [fitsByte_iff_exists.2 ⟨value, hValue⟩] at hFits
    cases hFits

end LongForms

namespace RawOperand

variable {raws : List RawInstruction} {resolver : Resolver} {raw : RawOperand} {operand : Operand}
  {start : Handle → Nat} {stop : Nat} {bs : List UInt8} {kind : OperandKind}

/-- Where instructions stay at their offsets, an operand is written as it was read. -/
theorem Becomes.raw_eq (hBecomes : raw.Becomes raws resolver operand)
    (hSpelt : raw.Spelt stop bs kind)
    (hStarts : ∀ k raw, raws[k]? = some raw → start k = raw.offset) :
    operand.raw start = raw := by
  have hStart : ∀ offset k, StartsAt raws k offset → (start k : Int) = offset := by
    rintro offset k ⟨raw, hRaw, rfl⟩
    rw [hStarts k raw hRaw]
  cases hBecomes with
  | plain value =>
      cases kind <;> simp only [Spelt, plain.injEq, reduceCtorEq, and_false, exists_false] at hSpelt
      case none =>
        rw [hSpelt.2]
        rfl
      all_goals
        obtain ⟨_, _, rfl⟩ := hSpelt
        rfl
  | target hTarget => exact congrArg RawOperand.target (hStart _ _ hTarget)
  | switch hTargets =>
      refine congrArg RawOperand.switch ?_
      rw [← List.forall₂_eq_eq_eq, List.forall₂_map_left_iff]
      exact (hTargets.imp hStart).flip.imp fun _ _ => id
  | method => rfl
  | literal => rfl

/-- The targets of code that was read are instructions of that code. -/
theorem Becomes.targets_lt (hBecomes : raw.Becomes raws resolver operand)
    (hRaw : operand.raw start = raw) : ∀ target ∈ operand.targets, target < raws.length := by
  have hStart : ∀ offset k, StartsAt raws k offset → k < raws.length := by
    rintro offset k ⟨raw, hStarts, _⟩
    exact (List.getElem?_eq_some_iff.1 hStarts).1
  cases hBecomes with
  | target hTarget => simpa [Operand.targets] using hStart _ _ hTarget
  | switch hTargets =>
      intro target hMem
      obtain ⟨offset, _, hTarget⟩ := forall₂_mem_right hTargets hMem
      exact hStart offset target hTarget
  | plain =>
      cases operand with
      | target | switch => cases hRaw
      | _ => simp [Operand.targets]
  | _ => simp [Operand.targets]

/-- The literals of code that was read have the tokens that they were read with. -/
theorem Becomes.has_token (hBecomes : raw.Becomes raws resolver operand)
    (hRaw : operand.raw start = raw) (text : String) : operand ≠ .literal ⟨none, text⟩ := by
  rintro rfl
  cases hBecomes
  cases hRaw

end RawOperand

namespace Decoded

open RawInstruction

variable {code : Bytes} {resolver : Resolver} {d : Decoded} {raws : List RawInstruction}

/-- The layout of decoded code has the offsets that its instructions were read at. -/
def layoutOf (code : Bytes) (raws : List RawInstruction) : Layout where
  starts := (raws.map (·.offset)).toArray
  size := code.size

theorem startOf_layoutOf {k : Nat} {raw : RawInstruction} (hRaw : raws[k]? = some raw) :
    (layoutOf code raws).startOf k = raw.offset := by
  simp [layoutOf, Layout.startOf, Array.getD_eq_getD_getElem?, hRaw]

/-- An instruction that was read, and is written again as it was. -/
structure Keeps (l : Layout) (long : LongForms) (entry : Handle × Instruction)
    (raw : RawInstruction) : Prop where
  raw_eq : entry.2.raw l long entry.1 = raw
  has_token : ∀ text, entry.2.operand ≠ .literal ⟨none, text⟩
  targets_lt : ∀ target ∈ entry.2.targets, target < l.starts.size

/-- Instruction by instruction, what was read is what would be written again. -/
theorem Renders.keeps (hRenders : d.Renders code resolver raws) :
    List.Forall₂ (Keeps (layoutOf code raws) (LongForms.none d.listing))
      d.listing.entries raws := by
  have hLength : d.listing.entries.length = raws.length := by
    rw [d.listing.length_entries, hRenders.size_eq]
  refine List.forall₂_iff_get.2 ⟨hLength, fun k hEntry hk => ?_⟩
  generalize hGet : raws.get ⟨k, hk⟩ = raw
  have hRaw : raws[k]? = some raw := List.getElem?_eq_some_iff.2 ⟨hk, hGet⟩
  obtain ⟨hOrder, operand, hSlot, hBecomes⟩ := hRenders.instruction k raw hRaw
  have hSame : d.listing.entries.get ⟨k, hEntry⟩ = (k, ⟨raw.opcode, operand⟩) :=
    (List.getElem?_eq_some_iff.1 (Listing.entries_getElem?_eq_some.2 ⟨hOrder, hSlot⟩)).2
  obtain ⟨_, _, hSize, bs, rfl, hSpelt⟩ :=
    hRenders.sequence.spelt_of_mem (List.mem_of_getElem? hRaw)
  have hOperand : operand.raw (layoutOf code raws).startOf = raw.operand :=
    hBecomes.raw_eq hSpelt fun _ _ => startOf_layoutOf
  have hRoom : raw.opcode.size + operand.encodedSize raw.opcode = raw.size := by
    rw [hSize, List.length_append, Opcode.length_encode,
      Operand.length_of_spelt (hOperand.symm ▸ hSpelt)]
  rw [hSame]
  refine ⟨?_, hBecomes.has_token hOperand, ?_⟩
  · rw [Instruction.raw, Instruction.encodedSize, LongForms.getD_none, startOf_layoutOf hRaw,
      hOperand]
    exact congrArg (RawInstruction.mk raw.offset · raw.opcode raw.operand) hRoom
  · simpa [layoutOf, Instruction.targets] using hBecomes.targets_lt hOperand

theorem Renders.keeps_of_mem (hRenders : d.Renders code resolver raws)
    {entry : Handle × Instruction} (hMem : entry ∈ d.listing.entries) :
    ∃ raw, Keeps (layoutOf code raws) (LongForms.none d.listing) entry raw := by
  obtain ⟨raw, _, hKept⟩ := forall₂_mem_right hRenders.keeps.flip hMem
  exact ⟨raw, hKept⟩

/-- Writing the listing with the offsets of the code gives the instructions of the code. -/
theorem Renders.map_raw (hRenders : d.Renders code resolver raws) :
    (d.listing.entries.map fun entry =>
      entry.2.raw (layoutOf code raws) (LongForms.none d.listing) entry.1) = raws := by
  rw [← List.forall₂_eq_eq_eq, List.forall₂_map_left_iff]
  exact hRenders.keeps.imp fun _ _ hKept => hKept.raw_eq

/-- The layout that the code was read with is settled on at once. -/
theorem Renders.settle_eq (hRenders : d.Renders code resolver raws)
    (hSize : code.size < 0x100000000) : LongForms.settle d.listing (LongForms.none d.listing)
      = .ok (layoutOf code raws, LongForms.none d.listing) := by
  have hSequence : Sequence 0 code.toList (d.listing.entries.map fun entry =>
      entry.2.raw (layoutOf code raws) (LongForms.none d.listing) entry.1) :=
    hRenders.map_raw.symm ▸ hRenders.sequence
  have hLayout : Layout.ofListing d.listing (LongForms.none d.listing)
      = .ok (layoutOf code raws) := by
    refine Layout.ofListing_of_places (hSequence.places ?_) ?_ hSize
    · simp [layoutOf]
    · rw [← Listing.size_eq, hRenders.size_eq]
      simp [layoutOf]
  refine LongForms.settle_of_reach hLayout
    (LongForms.outOfReach_of_sequence (fun entry hMem => ?_) hSequence)
  obtain ⟨_, hKept⟩ := hRenders.keeps_of_mem hMem
  exact hKept.targets_lt

/-- Asking for the offset of an instruction and for the instruction at an offset undo each other. -/
theorem Renders.starts_eq_some (hRenders : d.Renders code resolver raws) {k offset : Nat} :
    (layoutOf code raws).starts[k]? = some offset ↔ d.instructionAt offset = .ok (some k) := by
  rw [hRenders.at_start]
  simp [layoutOf, StartsAt]

/-- No token is asked for when the code is put together again. -/
theorem Renders.ofListing_eq (hRenders : d.Renders code resolver raws)
    (hSize : code.size < 0x100000000) {σ : Type} (intern : Interner σ) (s : σ) :
    Encoded.ofListing d.listing intern s = .ok ⟨code, 0, (layoutOf code raws).starts⟩ s := by
  refine Encoded.ofListing_eq_ok.2 ⟨_, _, d.listing.entries, hRenders.settle_eq hSize,
    Listing.internAll_of_has_token intern (fun entry hMem => ?_) s, fun entry hMem => ?_,
    hRenders.map_raw.symm ▸ hRenders.sequence, ?_, rfl⟩
  · obtain ⟨_, hKept⟩ := hRenders.keeps_of_mem hMem
    exact hKept.has_token
  · obtain ⟨_, hKept⟩ := hRenders.keeps_of_mem hMem
    exact hKept.targets_lt
  · rw [← LongForms.card_branches, LongForms.branches_none]
    rfl

end Decoded

namespace Encoded

/-- Code that was taken apart is put together again byte for byte, whatever tokens new literals
would get. Each instruction stands where it was found. -/
theorem encode_decode {code : Bytes} {resolver : Resolver} {d : Decoded}
    (hSize : code.size < 0x100000000) (hCode : Decoded.ofCode code resolver = .ok d) :
    ∃ starts : Array Nat,
      (∀ k offset, starts[k]? = some offset ↔ d.instructionAt offset = .ok (some k)) ∧
      ∀ (σ : Type) (intern : Interner σ) (s : σ),
        ofListing d.listing intern s = .ok ⟨code, 0, starts⟩ s := by
  obtain ⟨raws, hRenders⟩ := Decoded.renders_of_ofCode hCode
  exact ⟨_, fun _ _ => hRenders.starts_eq_some,
    fun _ intern s => hRenders.ofListing_eq hSize intern s⟩

/-- A loop that loads a signaling NaN, and a literal that is no text. -/
def lossyLoop : Bytes := #[0x22, 1, 0, 0x80, 0x7F, 0x26, 0x72, 1, 0, 0, 0x70, 0x26, 0x2B, 0xF2]

/-- The literal is known with a replacement in it. -/
def lossyTexts : Resolver := .ofLists [] [(Token.ofParts Token.literalTable 1, "\uFFFD")]

/-- A float whose bits arithmetic would change, and a text with a replacement in it, are both
written as they were read, since their bits and their tokens are kept. -/
theorem encode_decode_lossyLoop : lossyLoop.size < 0x100000000 ∧ ∃ d,
    Decoded.ofCode lossyLoop lossyTexts = .ok d ∧ ∃ starts,
      ofListing d.listing countLiterals 1 = .ok ⟨lossyLoop, 0, starts⟩ 1 := by
  have hSize : lossyLoop.size < 0x100000000 := by decide
  have hOk : (Decoded.ofCode lossyLoop lossyTexts).isOk = true := by decide +kernel
  cases hCode : Decoded.ofCode lossyLoop lossyTexts with
  | error fault =>
      rw [hCode] at hOk
      cases hOk
  | ok d =>
      obtain ⟨starts, -, hEncode⟩ := encode_decode hSize hCode
      exact ⟨hSize, d, rfl, starts, hEncode Nat countLiterals 1⟩

end Encoded

end IlSplice
