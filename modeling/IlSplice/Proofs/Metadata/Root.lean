import IlSplice.Metadata.Root
import IlSplice.Proofs.Bytes.Overwrite
import IlSplice.Proofs.Bytes.Reading

/-! Reading the root of the metadata and its directory of streams back from what was written. -/

namespace IlSplice

open Bytes

/-- Contents that are appended one after the other stand one behind the other. -/
theorem toList_foldl_append (front : Bytes) (parts : List Bytes) :
    (parts.foldl (· ++ ·) front).toList = front.toList ++ (parts.map Array.toList).flatten := by
  induction parts generalizing front with
  | nil => simp
  | cons part rest ih => rw [List.foldl_cons, ih]; simp

namespace StreamEntry

/-- The names that are accepted are ASCII without zeros and shorter than the reader looks, so that
each is read back as it was written. -/
theorem readable_of_mem_knownNames : ∀ name ∈ knownNames,
    latin1 (ofUtf8 name).toList = name ∧ (∀ b ∈ (ofUtf8 name).toList, b ≠ 0) ∧
      (ofUtf8 name).size < maxName := by
  decide +kernel

/-- There is always room for a zero behind the name. -/
theorem size_lt_nameSize (e : StreamEntry) : (ofUtf8 e.name).size < e.nameSize := by
  have hSize : (ofUtf8 e.name).size + 1 ≤ e.nameSize := le_alignUp _ (by decide)
  omega

theorem size_encode (e : StreamEntry) : e.encode.size = e.byteSize := by
  have := e.size_lt_nameSize
  simp [encode, resize, byteSize]
  omega

theorem toList_encode (e : StreamEntry) : e.encode.toList = leBytes 4 e.offset.toNat
    ++ leBytes 4 e.size.toNat ++ (ofUtf8 e.name).toList
    ++ List.replicate (e.nameSize - (ofUtf8 e.name).size) 0 := by
  have := e.size_lt_nameSize
  simp [encode, resize, Array.extract_eq_self_of_le (Nat.le_of_lt this)]

/-- A text is cut off at the first zero. -/
theorem takeWhile_of_holds {data : Bytes} {offset count : Nat} {bs : List UInt8}
    (hHolds : data.Holds offset (bs ++ [0])) (hCount : bs.length < count)
    (hText : ∀ b ∈ bs, b ≠ 0) :
    (data.extract offset (offset + count)).toList.takeWhile (· ≠ 0) = bs := by
  have hSplit : data.extract offset (offset + count)
      = data.extract offset (offset + (bs ++ [0]).length)
        ++ data.extract (offset + (bs ++ [0]).length) (offset + count) := by
    rw [Array.extract_append_extract, Nat.min_eq_left (by omega), Nat.max_eq_right]
    rw [List.length_append, List.length_singleton]
    omega
  rw [hSplit, hHolds.extract, Array.toList_append, List.append_assoc,
    List.takeWhile_append_of_pos (by simpa using hText)]
  simp

/-- An entry of a known name is read back from the directory. -/
theorem ofBytes_of_encode {e : StreamEntry} {data : Bytes} (hName : e.name ∈ knownNames)
    (hHolds : data.Holds 0 e.encode.toList) : ofBytes data = .ok e := by
  obtain ⟨hLatin, hText, hShort⟩ := readable_of_mem_knownNames _ hName
  have hRoom := e.size_lt_nameSize
  have hSize := hHolds.1
  rw [Array.length_toList, e.size_encode, byteSize] at hSize
  rw [toList_encode] at hHolds
  have hZero : List.replicate (e.nameSize - (ofUtf8 e.name).size) (0 : UInt8)
      = [0] ++ List.replicate (e.nameSize - (ofUtf8 e.name).size - 1) 0 := by
    rw [List.singleton_append, ← List.replicate_succ]
    congr 1
    omega
  rw [hZero, ← List.append_assoc] at hHolds
  obtain ⟨hHolds, _⟩ := holds_append.1 hHolds
  rw [List.append_assoc] at hHolds
  obtain ⟨hNumbers, hNameBytes⟩ := holds_append.1 hHolds
  obtain ⟨hOffset, hLength⟩ := holds_append.1 hNumbers
  rw [List.length_append, length_leBytes, length_leBytes] at hNameBytes
  rw [length_leBytes] at hLength
  have hTake := takeWhile_of_holds hNameBytes (by simpa using hShort) hText
  rw [ofBytes, if_neg (by omega)]
  dsimp only
  rw [hTake, hLatin, if_pos hName, hOffset.uintAt_of_lt e.offset.toNat_lt,
    hLength.uintAt_of_lt e.size.toNat_lt, UInt32.ofNat_toNat, UInt32.ofNat_toNat]

theorem name_mem_of_ofBytes {e : StreamEntry} {data : Bytes} (hRead : ofBytes data = .ok e) :
    e.name ∈ knownNames := by
  unfold ofBytes at hRead
  split at hRead
  · cases hRead
  dsimp only at hRead
  split at hRead
  · rename_i hName
    cases hRead
    exact hName
  · cases hRead

end StreamEntry

namespace Root

variable {data head : Bytes} {r r' : Root} {entries found : List StreamEntry} {offset : Nat}

/-- One more entry of the directory, with the two checks of its bounds: the sum must fit 32 bits,
and the stream must lie in the data. -/
theorem readStreams_succ_eq_ok {count : Nat}
    (hRead : readStreams data (count + 1) offset = .ok entries) :
    ∃ entry rest, entries = entry :: rest ∧ offset ≤ data.size ∧
      StreamEntry.ofBytes (data.extract offset data.size) = .ok entry ∧
      entry.offset.toNat + entry.size.toNat ≤ data.size ∧
      entry.offset.toNat + entry.size.toNat < byteRange 4 ∧
      readStreams data count (offset + entry.byteSize) = .ok rest := by
  rw [readStreams] at hRead
  obtain ⟨slice, hSlice, hRead⟩ := Except.bind_eq_ok.1 hRead
  unfold Bytes.slice at hSlice
  split at hSlice
  · rename_i hInside
    cases hSlice
    obtain ⟨entry, hEntry, hRead⟩ := Except.bind_eq_ok.1 hRead
    dsimp only at hRead
    split at hRead
    · cases hRead
    rename_i hNoOverflow
    split at hRead
    · cases hRead
    rename_i hFits
    obtain ⟨rest, hRest, hRead⟩ := Except.bind_eq_ok.1 hRead
    cases hRead
    exact ⟨entry, rest, rfl, hInside.1, hEntry, Nat.le_of_not_lt hFits,
      Nat.lt_of_not_le hNoOverflow, hRest⟩
  · cases hSlice

/-- A directory that was read has known names, and its streams lie inside the data. -/
theorem known_of_readStreams {count : Nat} (hRead : readStreams data count offset = .ok entries) :
    entries.length = count ∧ ∀ e ∈ entries, e.name ∈ StreamEntry.knownNames ∧
      e.offset.toNat + e.size.toNat ≤ data.size := by
  induction count generalizing offset entries with
  | zero =>
      cases hRead
      simp
  | succ count ih =>
      obtain ⟨entry, rest, rfl, _, hEntry, hInside, _, hRest⟩ := readStreams_succ_eq_ok hRead
      obtain ⟨hLength, hKnown⟩ := ih hRest
      rw [List.forall_mem_cons, List.length_cons, hLength]
      exact ⟨rfl, ⟨StreamEntry.name_mem_of_ofBytes hEntry, hInside⟩, hKnown⟩

/-- By induction on the directory. No stream that was read ends beyond 32 bits. -/
theorem stop_lt_of_readStreams {count : Nat} (hRead : readStreams data count offset = .ok entries) :
    ∀ e ∈ entries, e.offset.toNat + e.size.toNat < byteRange 4 := by
  induction count generalizing offset entries with
  | zero =>
      cases hRead
      simp
  | succ count ih =>
      obtain ⟨entry, rest, rfl, _, _, _, hStop, hRest⟩ := readStreams_succ_eq_ok hRead
      rw [List.forall_mem_cons]
      exact ⟨hStop, ih hRest⟩

/-- A directory that can be read is read as the one that was written. -/
theorem readStreams_of_encode (hNames : ∀ e ∈ entries, e.name ∈ StreamEntry.knownNames)
    (hHolds : data.Holds offset ((entries.map StreamEntry.encode).map Array.toList).flatten)
    (hRead : readStreams data entries.length offset = .ok found) : found = entries := by
  induction entries generalizing offset found with
  | nil =>
      cases hRead
      rfl
  | cons e rest ih =>
      rw [List.forall_mem_cons] at hNames
      rw [List.map_cons, List.map_cons, List.flatten_cons] at hHolds
      obtain ⟨hFirst, hRest⟩ := holds_append.1 hHolds
      rw [Array.length_toList, e.size_encode] at hRest
      obtain ⟨entry, tail, rfl, hStart, hEntry, _, _, hTail⟩ := readStreams_succ_eq_ok hRead
      have hAgain := StreamEntry.ofBytes_of_encode hNames.1
        ((hFirst : data.Holds (offset + 0) _).of_extract hFirst.1 (Nat.le_refl _))
      obtain rfl := Except.ok.inj (hAgain.symm.trans hEntry)
      rw [ih hNames.2 hRest hTail]

/-- The places of the metadata that decide where the directory is and what it lists. -/
structure ReadFrom (data : Bytes) (r : Root) : Prop where
  length_eq : r.length.toNat = data.uintAt 12 4
  version_le : 16 + r.length.toNat ≤ data.size
  count_le : r.streams.length ≤ maxStreams
  count_eq : r.streams.length = data.uintAt (16 + r.length.toNat + 2) 2
  streams_eq : readStreams data r.streams.length (16 + r.length.toNat + 4) = .ok r.streams

/-- The parts of a root that was read. -/
theorem ofBytes_eq_ok (hRead : ofBytes data = .ok r) :
    data.uintAt 0 4 = magic ∧ 16 + data.uintAt 12 4 ≤ data.size ∧ ∃ flags streams,
      (0 < streams.length ∧ streams.length ≤ maxStreams) ∧
      data.uintAt (16 + data.uintAt 12 4 + 2) 2 = streams.length ∧
      readStreams data streams.length (16 + data.uintAt 12 4 + 4) = .ok streams ∧
      r = { signature := UInt32.ofNat (data.uintAt 0 4)
            major := UInt16.ofNat (data.uintAt 4 2)
            minor := UInt16.ofNat (data.uintAt 6 2)
            reserved := UInt32.ofNat (data.uintAt 8 4)
            length := UInt32.ofNat (data.uintAt 12 4)
            version := latin1 ((data.extract 16 (16 + data.uintAt 12 4)).toList.takeWhile (· ≠ 0))
            flags := flags
            streams := streams } := by
  unfold ofBytes at hRead
  split at hRead
  · cases hRead
  dsimp only at hRead
  split at hRead
  · cases hRead
  rename_i hMagic
  obtain ⟨version, hVersion, hRead⟩ := Except.bind_eq_ok.1 hRead
  obtain ⟨flags, _, hRead⟩ := Except.bind_eq_ok.1 hRead
  obtain ⟨count, hCount, hRead⟩ := Except.bind_eq_ok.1 hRead
  split at hRead
  · cases hRead
  rename_i hMany
  obtain ⟨streams, hStreams, hRead⟩ := Except.bind_eq_ok.1 hRead
  cases hRead
  obtain ⟨stop, hScan⟩ := Scan.evalAt_eq_ok.1 hCount
  obtain ⟨_, _, rfl⟩ := Scan.uint_eq_ok hScan
  obtain ⟨_, hInside, rfl⟩ := slice_eq_ok hVersion
  have hKnown := (known_of_readStreams hStreams).1
  rw [← hKnown] at hStreams hMany
  exact ⟨not_ne_iff.1 hMagic, hInside, flags, streams, by omega, hKnown.symm, hStreams, rfl⟩

/-- Where the parts of a root were read, and how they are bounded. -/
theorem readFrom_of_ofBytes (hRead : ofBytes data = .ok r) : r.ReadFrom data := by
  obtain ⟨_, hInside, flags, streams, hFew, hCount, hStreams, rfl⟩ := ofBytes_eq_ok hRead
  refine ⟨toNat_ofNat_uintAt data 12, ?_, hFew.2, ?_, ?_⟩
  all_goals
    dsimp only
    rw [toNat_ofNat_uintAt]
  · exact hInside
  · exact hCount.symm
  · exact hStreams

theorem signature_of_ofBytes (hRead : ofBytes data = .ok r) : r.signature.toNat = magic := by
  obtain ⟨hMagic, _, _, _, _, _, _, rfl⟩ := ofBytes_eq_ok hRead
  rw [toNat_ofNat_uintAt, hMagic]

/-- The parts of a root in the order in which they are written. -/
theorem toList_encode (hEncode : r.encode = .ok head) : head.toList =
    leBytes 4 r.signature.toNat ++ leBytes 2 r.major.toNat ++ leBytes 2 r.minor.toNat
      ++ leBytes 4 r.reserved.toNat ++ leBytes 4 r.versionSize
      ++ (resize (ofUtf8 r.version) r.versionSize).toList
      ++ leBytes 2 r.flags.toNat ++ leBytes 2 r.streams.length
      ++ ((r.streams.map StreamEntry.encode).map Array.toList).flatten := by
  unfold encode at hEncode
  split at hEncode
  · cases hEncode
  · cases hEncode
    simp [toList_foldl_append]

/-- A root takes the room that was reckoned with, which is why streams can be given places before it
is written. -/
theorem size_encode (hEncode : r.encode = .ok head) : head.size = r.byteSize := by
  have hStreams : ((r.streams.map StreamEntry.encode).map Array.toList).flatten.length
      = r.streams.foldr (fun entry size => entry.byteSize + size) 0 := by
    induction r.streams with
    | nil => rfl
    | cons e rest ih =>
        rw [List.map_cons, List.map_cons, List.flatten_cons, List.length_append, ih,
          Array.length_toList, e.size_encode, List.foldr_cons]
  rw [← Array.length_toList, toList_encode hEncode]
  simp only [List.length_append, length_leBytes, Array.length_toList, size_resize, hStreams,
    byteSize]

/-- The fields of a root that was written. -/
structure Fields (r : Root) (data : Bytes) : Prop where
  signature_eq : data.uintAt 0 4 = r.signature.toNat
  major_eq : data.uintAt 4 2 = r.major.toNat
  minor_eq : data.uintAt 6 2 = r.minor.toNat
  reserved_eq : data.uintAt 8 4 = r.reserved.toNat
  length_eq : data.uintAt 12 4 = r.versionSize
  version : data.Holds 16 (resize (ofUtf8 r.version) r.versionSize).toList
  flags_eq : data.uintAt (16 + r.versionSize) 2 = r.flags.toNat
  count_eq : data.uintAt (16 + r.versionSize + 2) 2 = r.streams.length
  count_le : 16 + r.versionSize + 4 ≤ data.size
  streams : data.Holds (16 + r.versionSize + 4)
    ((r.streams.map StreamEntry.encode).map Array.toList).flatten

/-- The fields of a root are found in data that starts with what was written for it. -/
theorem fields_of_encode (hEncode : r.encode = .ok head) (hHolds : data.Holds 0 head.toList)
    (hVersion : r.versionSize < byteRange 4) : r.Fields data := by
  have hCount : r.streams.length < byteRange 2 := by
    unfold encode at hEncode
    split at hEncode
    · cases hEncode
    · rename_i hFew
      exact Nat.lt_of_not_le hFew
  rw [toList_encode hEncode] at hHolds
  obtain ⟨hHolds, hStreams⟩ := holds_append.1 hHolds
  obtain ⟨hHolds, hCountBytes⟩ := holds_append.1 hHolds
  obtain ⟨hHolds, hFlags⟩ := holds_append.1 hHolds
  obtain ⟨hHolds, hText⟩ := holds_append.1 hHolds
  obtain ⟨hHolds, hVersionSize⟩ := holds_append.1 hHolds
  obtain ⟨hHolds, hReserved⟩ := holds_append.1 hHolds
  obtain ⟨hHolds, hMinor⟩ := holds_append.1 hHolds
  obtain ⟨hSignature, hMajor⟩ := holds_append.1 hHolds
  simp only [List.length_append, length_leBytes, Array.length_toList, size_resize, Nat.zero_add,
    Nat.reduceAdd] at hStreams hCountBytes hFlags hText hVersionSize hReserved hMinor hMajor
  exact ⟨hSignature.uintAt_of_lt r.signature.toNat_lt, hMajor.uintAt_of_lt r.major.toNat_lt,
    hMinor.uintAt_of_lt r.minor.toNat_lt, hReserved.uintAt_of_lt r.reserved.toNat_lt,
    hVersionSize.uintAt_of_lt hVersion, hText, hFlags.uintAt_of_lt r.flags.toNat_lt,
    hCountBytes.uintAt_of_lt hCount, hStreams.offset_le, hStreams⟩

/-- The directory of a root that can be read is the one of the root that was written. -/
theorem streams_of_encode (hEncode : r.encode = .ok head) (hHolds : data.Holds 0 head.toList)
    (hNames : ∀ e ∈ r.streams, e.name ∈ StreamEntry.knownNames)
    (hVersion : r.versionSize < byteRange 4) (hRead : ofBytes data = .ok r') :
    r'.streams = r.streams := by
  have hFrom := readFrom_of_ofBytes hRead
  have hFields := fields_of_encode hEncode hHolds hVersion
  have hLength : r'.length.toNat = r.versionSize := by
    rw [hFrom.length_eq, hFields.length_eq]
  have hSame : r'.streams.length = r.streams.length := by
    rw [hFrom.count_eq, hLength, hFields.count_eq]
  have hEntries := hFrom.streams_eq
  rw [hSame, hLength] at hEntries
  exact readStreams_of_encode hNames hFields.streams hEntries

/-- A directory is read if its streams lie inside the data. -/
theorem readStreams_of_inside (hNames : ∀ e ∈ entries, e.name ∈ StreamEntry.knownNames)
    (hInside : ∀ e ∈ entries, e.offset.toNat + e.size.toNat ≤ data.size)
    (hLess : ∀ e ∈ entries, e.offset.toNat + e.size.toNat < byteRange 4)
    (hHolds : data.Holds offset ((entries.map StreamEntry.encode).map Array.toList).flatten) :
    readStreams data entries.length offset = .ok entries := by
  induction entries generalizing offset with
  | nil => rfl
  | cons e rest ih =>
      rw [List.forall_mem_cons] at hNames hInside hLess
      rw [List.map_cons, List.map_cons, List.flatten_cons] at hHolds
      obtain ⟨hFirst, hRest⟩ := holds_append.1 hHolds
      rw [Array.length_toList, e.size_encode] at hRest
      have hEntry := StreamEntry.ofBytes_of_encode hNames.1
        ((hFirst : data.Holds (offset + 0) _).of_extract hFirst.1 (Nat.le_refl _))
      have hSlice : data.slice offset data.size = .ok (data.extract offset data.size) :=
        if_pos ⟨hFirst.offset_le, Nat.le_refl _⟩
      have hStop : ¬ 0x100000000 ≤ e.offset.toNat + e.size.toNat := Nat.not_le_of_lt hLess.1
      rw [List.length_cons, readStreams, hSlice]
      refine Except.bind_eq_ok.2 ⟨_, rfl, Except.bind_eq_ok.2 ⟨e, hEntry, ?_⟩⟩
      dsimp only
      rw [if_neg hStop, if_neg (Nat.not_lt_of_le hInside.1)]
      exact Except.bind_eq_ok.2 ⟨rest, ih hNames.2 hInside.2 hLess.2 hRest, rfl⟩

/-- A directory of two entries is long enough to be looked at. -/
theorem Fields.minimum (hFields : r.Fields data) (hTwo : 2 ≤ r.streams.length) :
    36 ≤ data.size := by
  have hEntries : ∀ l : List StreamEntry,
      9 * l.length ≤ ((l.map StreamEntry.encode).map Array.toList).flatten.length := by
    intro l
    induction l with
    | nil => exact Nat.le_refl _
    | cons e rest ih =>
        have := e.size_lt_nameSize
        have hEntry : e.encode.toList.length = 8 + e.nameSize := by
          rw [Array.length_toList, e.size_encode, StreamEntry.byteSize]
        rw [List.map_cons, List.map_cons, List.flatten_cons, List.length_append, hEntry,
          List.length_cons]
        omega
  have := hEntries r.streams
  have := hFields.streams.1
  omega

/-- A root that was written is read back, with the size that its version field was rounded up to and
with the text that is found in this field. -/
theorem Fields.ofBytes_eq (hFields : r.Fields data) (hSignature : r.signature.toNat = magic)
    (hMinimum : 36 ≤ data.size) (hSome : r.streams ≠ []) (hFew : r.streams.length ≤ maxStreams)
    (hEntries : readStreams data r.streams.length (16 + r.versionSize + 4) = .ok r.streams) :
    ofBytes data = .ok { r with
      length := UInt32.ofNat r.versionSize
      version := latin1 ((resize (ofUtf8 r.version) r.versionSize).toList.takeWhile (· ≠ 0)) } := by
  have hRoom := hFields.count_le
  have hVersion : data.slice 16 (16 + r.versionSize)
      = .ok (resize (ofUtf8 r.version) r.versionSize) := by
    have hText := hFields.version.extract
    rw [Array.length_toList, size_resize, Array.toArray_toList] at hText
    rw [slice, if_pos ⟨by omega, by omega⟩, hText]
  have hFlags : Scan.evalAt Scan.u16 data (16 + r.versionSize) = .ok r.flags := by
    refine Scan.evalAt_eq_ok.2 ⟨16 + r.versionSize + 2, ?_⟩
    rw [Scan.u16, Scan.bind_of_ok (show Scan.uint 2 data _ = .ok _ _ from if_pos (by omega)),
      hFields.flags_eq, UInt16.ofNat_toNat]
    rfl
  have hCount : Scan.evalAt (Scan.uint 2) data (16 + r.versionSize + 2) = .ok r.streams.length :=
    Scan.evalAt_eq_ok.2 ⟨_, by rw [Scan.uint, if_pos (by omega), hFields.count_eq]⟩
  have hListed : ¬ (r.streams.length = 0 ∨ maxStreams < r.streams.length) := by
    rw [List.length_eq_zero_iff]
    exact fun hOut => hOut.elim hSome (Nat.not_lt.2 hFew)
  unfold ofBytes
  rw [if_neg (by omega), hFields.signature_eq, hFields.length_eq]
  dsimp only
  rw [if_neg (not_not.2 hSignature), hVersion, hFlags, hCount]
  dsimp only [bind, Except.bind]
  rw [if_neg hListed, hEntries, hFields.major_eq, hFields.minor_eq, hFields.reserved_eq]
  simp only [UInt16.ofNat_toNat, UInt32.ofNat_toNat]
  rfl

/-- A root that was written is read if it does not list too many streams. -/
theorem exists_ofBytes_iff (hFields : r.Fields data) (hSignature : r.signature.toNat = magic)
    (hMinimum : 36 ≤ data.size) (hSome : r.streams ≠ [])
    (hEntries : readStreams data r.streams.length (16 + r.versionSize + 4) = .ok r.streams) :
    (∃ r', ofBytes data = .ok r') ↔ r.streams.length ≤ maxStreams := by
  constructor
  · rintro ⟨r', hRead⟩
    have hFrom := readFrom_of_ofBytes hRead
    have hSame : r'.streams.length = r.streams.length := by
      rw [hFrom.count_eq, hFrom.length_eq, hFields.length_eq, hFields.count_eq]
    exact hSame ▸ hFrom.count_le
  · exact fun hFew => ⟨_, hFields.ofBytes_eq hSignature hMinimum hSome hFew hEntries⟩

end Root

end IlSplice
