import IlSplice.Proofs.Metadata.Root

/-! The version text of a root that is read and written. It is read byte by byte and written as
UTF-8, and these two are the same for ASCII only. Everything else in the root is kept. -/

namespace IlSplice

open Bytes

namespace Bytes

variable {bs xs ys : List UInt8} {b : UInt8}

theorem toNat_char (b : UInt8) : (Char.ofNat b.toNat).toNat = b.toNat := by
  rw [Char.toNat_ofNat, if_pos (.inl (Nat.lt_trans b.toNat_lt (by decide)))]

/-- The bytes that stand for a byte that is read as a character. -/
def charBytes (b : UInt8) : List UInt8 := String.utf8EncodeChar (Char.ofNat b.toNat)

/-- ASCII is written as the byte itself. -/
theorem charBytes_of_lt (hAscii : b.toNat < 0x80) : charBytes b = [b] := by
  have hCode : (Char.ofNat b.toNat).val.toNat = b.toNat := toNat_char b
  unfold charBytes String.utf8EncodeChar
  dsimp only
  rw [hCode, if_pos (by omega), UInt8.ofNat_toNat]

/-- Every other byte is written as two, and so is never kept. -/
theorem charBytes_of_le (hHigh : 0x80 ≤ b.toNat) :
    charBytes b = [UInt8.ofNat (b.toNat / 64 % 32 + 192), UInt8.ofNat (b.toNat % 64 + 128)] := by
  have hCode : (Char.ofNat b.toNat).val.toNat = b.toNat := toNat_char b
  have hRange := b.toNat_lt
  unfold charBytes String.utf8EncodeChar
  dsimp only
  rw [hCode, if_neg (by omega), if_pos (by omega)]

/-- Writing a text puts no zero into it, at which reading would stop. -/
theorem ne_zero_of_mem_charBytes (hText : b ≠ 0) : ∀ c ∈ charBytes b, c ≠ 0 := by
  rcases Nat.lt_or_ge b.toNat 0x80 with hAscii | hHigh
  · simpa [charBytes_of_lt hAscii] using hText
  · have hNonzero : ∀ n, 0 < n → n < 256 → UInt8.ofNat n ≠ 0 := by
      intro n hPos hLess hZero
      have hSame := congrArg UInt8.toNat hZero
      rw [UInt8.toNat_ofNat', Nat.mod_eq_of_lt hLess] at hSame
      exact absurd hSame (Nat.ne_of_gt hPos)
    rw [charBytes_of_le hHigh, List.forall_mem_cons, List.forall_mem_singleton]
    exact ⟨hNonzero _ (by omega) (by omega), hNonzero _ (by omega) (by omega)⟩

/-- A text that was read byte by byte is written byte by byte as well, only in other bytes. -/
theorem toList_ofUtf8_latin1 (bs : List UInt8) :
    (ofUtf8 (latin1 bs)).toList = bs.flatMap charBytes := by
  change (String.ofList _).toByteArray.data.toList = _
  rw [String.toByteArray_ofList, List.utf8Encode, List.data_toByteArray, List.flatMap_map]
  rfl

/-- Every character that is not ASCII takes a byte more than it had. -/
theorem length_flatMap_charBytes (bs : List UInt8) :
    (bs.flatMap charBytes).length = bs.length + bs.countP (0x80 ≤ ·.toNat) := by
  induction bs with
  | nil => rfl
  | cons b rest ih =>
      rw [List.flatMap_cons, List.length_append, ih, List.length_cons, List.countP_cons]
      rcases Nat.lt_or_ge b.toNat 0x80 with hAscii | hHigh
      · rw [charBytes_of_lt hAscii, if_neg (by simpa using hAscii), List.length_singleton]
        omega
      · rw [charBytes_of_le hHigh, if_pos (by simpa using hHigh), List.length_cons,
          List.length_singleton]
        omega

theorem flatMap_charBytes_of_ascii (hAscii : ∀ b ∈ bs, b.toNat < 0x80) :
    bs.flatMap charBytes = bs := by
  induction bs with
  | nil => rfl
  | cons b rest ih =>
      rw [List.forall_mem_cons] at hAscii
      rw [List.flatMap_cons, charBytes_of_lt hAscii.1, ih hAscii.2, List.singleton_append]

/-- Reading loses nothing, since each byte becomes a character of its own. -/
theorem latin1_inj (h : latin1 xs = latin1 ys) : xs = ys := by
  refine List.map_injective_iff.2 (fun b c hSame => ?_) (String.ofList_inj.1 h)
  have hCode := congrArg Char.toNat hSame
  rwa [toNat_char, toNat_char, UInt8.toNat_inj] at hCode

/-- A text is ASCII exactly if the bytes are that it was read from. -/
theorem ascii_latin1 (bs : List UInt8) :
    (∀ c ∈ (latin1 bs).toList, c.toNat < 0x80) ↔ ∀ b ∈ bs, b.toNat < 0x80 := by
  rw [latin1, String.toList_ofList, List.forall_mem_map]
  simp only [toNat_char]

/-- What is read of a field in which a text stands, cut off or filled up with zeros. -/
theorem takeWhile_resize {text : Bytes} (hText : ∀ b ∈ text.toList, b ≠ 0) (size : Nat) :
    (resize text size).toList.takeWhile (· ≠ 0) = text.toList.take size := by
  rw [resize_eq_toArray, List.toList_toArray, List.takeWhile_append_of_pos
    (by simpa using fun b hMem => hText b (List.mem_of_mem_take hMem))]
  cases size - text.size <;> simp [List.replicate_succ]

end Bytes

namespace Root

variable {data : Bytes} {r : Root}

/-- The version ends in front of the first zero of its field. -/
theorem version_of_ofBytes (hRead : ofBytes data = .ok r) :
    ∃ bs : List UInt8, r.version = latin1 bs ∧ (∀ b ∈ bs, b ≠ 0) ∧ bs.length ≤ r.length.toNat := by
  obtain ⟨_, hInside, _, _, _, _, _, rfl⟩ := ofBytes_eq_ok hRead
  refine ⟨_, rfl, fun b hMem => by simpa using List.mem_takeWhile_imp hMem, ?_⟩
  refine Nat.le_trans (List.takeWhile_prefix _).length_le ?_
  rw [Array.length_toList, Array.size_extract, toNat_ofNat_uintAt]
  omega

/-- A text is read back from the field that it was written to as long as it is ASCII, and only then
if there is room for it. -/
theorem latin1_reread {bs : List UInt8} {size : Nat} (hText : ∀ b ∈ bs, b ≠ 0)
    (hRoom : bs.length ≤ size) : ∃ text,
      latin1 ((resize (ofUtf8 (latin1 bs)) size).toList.takeWhile (· ≠ 0)) = text ∧
      ((∀ c ∈ (latin1 bs).toList, c.toNat < 0x80) → text = latin1 bs) ∧
      ((ofUtf8 (latin1 bs)).size ≤ size → text = latin1 bs →
        ∀ c ∈ (latin1 bs).toList, c.toNat < 0x80) := by
  have hNoZero : ∀ b ∈ (ofUtf8 (latin1 bs)).toList, b ≠ 0 := by
    rw [toList_ofUtf8_latin1]
    intro b hMem
    obtain ⟨c, hIn, hMem⟩ := List.mem_flatMap.1 hMem
    exact ne_zero_of_mem_charBytes (hText c hIn) b hMem
  refine ⟨_, congrArg latin1 (takeWhile_resize hNoZero size), fun hAscii => ?_,
    fun hFits hSame => ?_⟩
  · rw [ascii_latin1] at hAscii
    rw [toList_ofUtf8_latin1, flatMap_charBytes_of_ascii hAscii, List.take_of_length_le hRoom]
  · -- Read byte by byte, the text is as long as its UTF-8 form.
    rw [← Array.length_toList] at hFits
    rw [List.take_of_length_le hFits, toList_ofUtf8_latin1] at hSame
    have hLength := congrArg List.length (latin1_inj hSame)
    rw [length_flatMap_charBytes, Nat.add_eq_left, List.countP_eq_zero] at hLength
    rw [ascii_latin1]
    exact fun b hMem => by simpa using hLength b hMem

/-- A root is written in as many bytes as it says, and read again from them it has the same fields
and streams, with the size of the version field rounded up. The version text is the same if it is
ASCII. Any other text is not, unless it is cut off. -/
theorem ofBytes_rewritten (hRead : ofBytes data = .ok r) :
    ∃ head, r.encode = .ok head ∧ head.size = r.byteSize ∧
      (r.versionSize < 0x100000000 → ∀ other : Bytes, other.Holds 0 head.toList →
        36 ≤ other.size → (∀ e ∈ r.streams, e.offset.toNat + e.size.toNat ≤ other.size) →
          ∃ text, ofBytes other
              = .ok { r with length := UInt32.ofNat (alignUp r.length.toNat 4), version := text } ∧
            ((∀ c ∈ r.version.toList, c.toNat < 0x80) → text = r.version) ∧
            ((ofUtf8 r.version).size ≤ r.versionSize → text = r.version →
              ∀ c ∈ r.version.toList, c.toNat < 0x80)) := by
  have hFrom := readFrom_of_ofBytes hRead
  have hKnown := (known_of_readStreams hFrom.streams_eq).2
  obtain ⟨hPos, hFew⟩ : 0 < r.streams.length ∧ r.streams.length ≤ maxStreams := by
    obtain ⟨_, _, _, _, hFew, _, _, rfl⟩ := ofBytes_eq_ok hRead
    exact hFew
  obtain ⟨head, hEncode⟩ : ∃ head, r.encode = .ok head := by
    rw [encode, if_neg (Nat.not_le.2 (Nat.lt_of_le_of_lt hFew (by decide)))]
    exact ⟨_, rfl⟩
  refine ⟨head, hEncode, size_encode hEncode, fun hVersion other hHolds hMinimum hInside => ?_⟩
  have hFields := fields_of_encode hEncode hHolds hVersion
  have hEntries := readStreams_of_inside (fun e hMem => (hKnown e hMem).1) hInside
    (stop_lt_of_readStreams hFrom.streams_eq) hFields.streams
  have hAgain := hFields.ofBytes_eq (signature_of_ofBytes hRead) hMinimum
    (List.ne_nil_of_length_pos hPos) hFew hEntries
  obtain ⟨bs, hBytes, hText, hLength⟩ := version_of_ofBytes hRead
  have hAlign : r.length.toNat ≤ r.versionSize := le_alignUp _ (by decide)
  obtain ⟨text, hSame, hKept⟩ := latin1_reread hText (Nat.le_trans hLength hAlign)
  rw [hBytes] at hAgain ⊢
  exact ⟨text, hSame ▸ hAgain, hKept⟩

/-- A root whose version field has a size that is no multiple of four. -/
def unaligned : Bytes := #[0x42, 0x53, 0x4A, 0x42, 1, 0, 1, 0, 0, 0, 0, 0, 10, 0, 0, 0,
  0x76, 0x34, 0x2E, 0x30, 0x2E, 0x33, 0x30, 0x33, 0x31, 0x39, 0, 0, 2, 0,
  54, 0, 0, 0, 4, 0, 0, 0, 0x23, 0x7E, 0, 0, 58, 0, 0, 0, 4, 0, 0, 0, 0x23, 0x55, 0x53, 0,
  1, 2, 3, 4, 5, 6, 7, 8]

/-- The length of the version field is rounded up, and nothing else changes. -/
theorem ofBytes_rewritten_unaligned : ∃ r head, ofBytes unaligned = .ok r ∧ r.encode = .ok head ∧
    head.size = 56 ∧ ofBytes (head ++ #[1, 2, 3, 4, 5, 6, 7, 8]) = .ok { r with length := 12 } := by
  have hFields : (ofBytes unaligned).toOption.map (fun r => (r.length, r.version, r.byteSize,
      r.streams.map fun e => e.offset.toNat + e.size.toNat))
        = some (10, "v4.0.30319", 56, [58, 62]) := by decide +kernel
  obtain ⟨r, hSome, hParts⟩ := Option.map_eq_some_iff.1 hFields
  have hRead := Except.toOption_eq_some.1 hSome
  simp only [Prod.mk.injEq] at hParts
  obtain ⟨hLength, hText, hSize, hStops⟩ := hParts
  obtain ⟨head, hEncode, hHead, hAgain⟩ := ofBytes_rewritten hRead
  rw [hSize] at hHead
  have hHolds : Bytes.Holds (head ++ #[1, 2, 3, 4, 5, 6, 7, 8]) 0 head.toList := by
    simpa using holds_middle #[] head.toList #[1, 2, 3, 4, 5, 6, 7, 8]
  have hOther : (head ++ #[1, 2, 3, 4, 5, 6, 7, 8]).size = 64 := by simp [hHead]
  have hInside : ∀ e ∈ r.streams, e.offset.toNat + e.size.toNat ≤ 64 := by
    have hEach : ∀ stop ∈ r.streams.map fun e => e.offset.toNat + e.size.toNat, stop ≤ 64 := by
      rw [hStops]
      decide
    exact fun e hMem => hEach _ (List.mem_map_of_mem hMem)
  obtain ⟨text, hReread, hKept, _⟩ := hAgain (by rw [versionSize, hLength]; decide) _ hHolds
    (by omega) (by rwa [hOther])
  obtain rfl := hKept (by rw [hText]; simp)
  refine ⟨r, head, hRead, hEncode, hHead, ?_⟩
  rw [hReread, hLength]
  rfl

/-- A version text with an accent in it fills its field. -/
def accented : Bytes := #[0x42, 0x53, 0x4A, 0x42, 1, 0, 1, 0, 0, 0, 0, 0, 4, 0, 0, 0,
  0x76, 0xC3, 0xA9, 0x2E, 0, 0, 1, 0, 0, 0, 0, 0, 0, 0, 0, 0, 0x23, 0x7E, 0, 0]

/-- The texts of a root that is read and written, whether its streams lie inside what is written,
and the text that is read then. -/
def reread (data : Bytes) : Except Fault (String × Bool × String) := do
  let r ← ofBytes data
  let head ← r.encode
  let again ← ofBytes head
  return (r.version, r.streams.all fun e => e.offset.toNat + e.size.toNat ≤ head.size,
    again.version)

/-- A version that is not ASCII is not kept. -/
theorem version_not_kept : ¬ ∀ (data other head : Bytes) (r : Root), ofBytes data = .ok r →
    r.encode = .ok head → other.Holds 0 head.toList →
      (∀ e ∈ r.streams, e.offset.toNat + e.size.toNat ≤ other.size) →
        ∃ r', ofBytes other = .ok r' ∧ r'.version = r.version := by
  intro hKept
  have hTexts : (reread accented).toOption = some ("vÃ©.", true, "vÃ\u0083Â") := by decide +kernel
  obtain ⟨r, hRead, hOk⟩ := Except.bind_eq_ok.1 (Except.toOption_eq_some.1 hTexts)
  obtain ⟨head, hEncode, hOk⟩ := Except.bind_eq_ok.1 hOk
  obtain ⟨again, hAgain, hOk⟩ := Except.bind_eq_ok.1 hOk
  obtain ⟨hBefore, hInside, hAfter⟩ : r.version = "vÃ©." ∧ _ ∧ again.version = "vÃ\u0083Â" := by
    simpa using Except.ok.inj hOk
  obtain ⟨r', hRead', hSame⟩ := hKept _ _ _ r hRead hEncode (holds_self head) hInside
  obtain rfl := Except.ok.inj (hAgain.symm.trans hRead')
  rw [hBefore, hAfter] at hSame
  exact absurd hSame (by decide)

end Root

end IlSplice
