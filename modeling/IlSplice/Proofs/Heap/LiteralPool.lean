import IlSplice.Proofs.Code.RoundTrip
import IlSplice.Proofs.Heap.Walk

/-! A heap of literals that grows. What it holds stays where it is, and the token of a text leads
to the text, as long as its offset has room in a token. -/

namespace IlSplice.LiteralPool

open Bytes

variable {pool middle pool' : LiteralPool} {text : String} {t : Token}

/-- Every known text stands at its offset. -/
def Sound (pool : LiteralPool) : Prop :=
  ∀ e ∈ pool.known, Literals.getUnits ⟨pool.data⟩ e.2 = .ok e.1

/-- What a heap that is accepted holds. Its texts are known from the start. -/
theorem walks_of_ofBytes {data : Bytes} (hPool : ofBytes data = .ok pool) :
    ∃ original, Literals.Walks data 1 original data.size ∧
      Literals.entries ⟨data⟩ = (original.toArray, none) ∧
      pool = ⟨data, (original.filter fun e => !e.2.isEmpty).map fun e => (e.2, e.1), 0⟩ := by
  obtain ⟨heap, hHeap, hPool⟩ := Except.bind_eq_ok.1 hPool
  obtain ⟨hStart, rfl⟩ := Literals.ofBytes_eq_ok.1 hHeap
  split at hPool
  · cases hPool
  · rename_i texts hTexts
    cases hPool
    have hInside := (Array.getElem?_eq_some_iff.1 hStart).1
    obtain ⟨original, hWalks, rfl⟩ := Literals.walks_of_entriesFrom hTexts hInside
    exact ⟨original, hWalks, Literals.entries_of_walks hWalks, by simp⟩

theorem started_of_ofBytes {data : Bytes} (hPool : ofBytes data = .ok pool) :
    data[0]? = some 0 := by
  obtain ⟨heap, hHeap, _⟩ := Except.bind_eq_ok.1 hPool
  exact (Literals.ofBytes_eq_ok.1 hHeap).1

/-- At the start a pool holds the heap as it is, and all that it knows was read from it. -/
theorem sound_of_ofBytes {data : Bytes} (hPool : ofBytes data = .ok pool) :
    pool.data = data ∧ pool.added = 0 ∧ pool.Sound := by
  obtain ⟨original, hWalks, _, rfl⟩ := walks_of_ofBytes hPool
  refine ⟨rfl, rfl, fun e hMem => ?_⟩
  obtain ⟨entry, hEntry, rfl⟩ := List.mem_map.1 hMem
  exact hWalks.getUnits (List.mem_of_mem_filter hEntry)

/-- Empty entries are left out of what is known, because filling looks the same. -/
theorem ofBytes_of_walks {data : Bytes} {original : List (Nat × List UInt16)}
    (hStart : data[0]? = some 0) (hWalks : Literals.Walks data 1 original data.size) :
    ofBytes data
      = .ok ⟨data, (original.filter fun e => !e.2.isEmpty).map fun e => (e.2, e.1), 0⟩ := by
  have hHeap : Literals.ofBytes data = .ok ⟨data⟩ := if_pos hStart
  refine Except.bind_eq_ok.2 ⟨⟨data⟩, hHeap, ?_⟩
  rw [Literals.texts, Literals.entriesFrom_of_walks hWalks rfl]
  simp [pure, Except.pure]

/-- A heap of zeros is accepted, whatever its size, and holds no text: each zero is the entry of an
empty text, and those are not kept. -/
theorem ofBytes_zeros (count : Nat) : ofBytes (#[0] ++ Array.replicate count 0)
    = .ok ⟨#[0] ++ Array.replicate count 0, [], 0⟩ := by
  have hWalks := Literals.walks_zeros #[0] count
  have hSize : (#[0] ++ Array.replicate count 0 : Bytes).size = #[0].size + count := by simp
  rw [ofBytes_of_walks (by simp) (hSize ▸ hWalks)]
  simp

/-- A heap that was only just started holds no text. -/
theorem ofBytes_started : ofBytes #[0] = .ok ⟨#[0], [], 0⟩ :=
  ofBytes_zeros 0

/-- The other pool has more literals behind the same ones. -/
structure Grows (pool pool' : LiteralPool) : Prop where
  size_le : pool.data.size ≤ pool'.data.size
  agree : pool.data.Agree pool'.data 0 pool.data.size
  known : ∃ new, pool'.known = pool.known ++ new ∧ ∀ e ∈ new, e.2 ≤ maxOffset
  added_le : pool.added ≤ pool'.added
  same : pool'.added = pool.added → pool' = pool

theorem Grows.refl (pool : LiteralPool) : pool.Grows pool :=
  ⟨Nat.le_refl _, fun _ _ _ => rfl, ⟨[], by simp, by simp⟩, Nat.le_refl _, fun _ => rfl⟩

/-- What was added first is known to the second pool and is not added again. -/
theorem Grows.trans (h : pool.Grows middle) (h' : middle.Grows pool') : pool.Grows pool' := by
  obtain ⟨first, hFirst, hFirstLe⟩ := h.known
  obtain ⟨second, hSecond, hSecondLe⟩ := h'.known
  refine ⟨Nat.le_trans h.size_le h'.size_le,
    h.agree.trans (h'.agree.mono (Nat.le_refl _) h.size_le), ⟨first ++ second, ?_, ?_⟩,
    Nat.le_trans h.added_le h'.added_le, fun hAdded => ?_⟩
  · rw [hSecond, hFirst, List.append_assoc]
  · rw [List.forall_mem_append]
    exact ⟨hFirstLe, hSecondLe⟩
  · have := h.added_le
    have := h'.added_le
    rw [h'.same (by omega), h.same (by omega)]

/-- A token has room for the offset of the text, if the text is known. -/
def Reaches (pool : LiteralPool) (text : String) : Prop :=
  ∀ offset, pool.known.lookup (Text.units text) = some offset → offset ≤ maxOffset

instance : Decidable (pool.Reaches text) :=
  decidable_of_iff ((pool.known.lookup (Text.units text)).all (· ≤ maxOffset) = true)
    (by simp [Reaches, Option.all_eq_true])

/-- A text that is added stands where a token can lead, since that is checked when it is added. -/
theorem Grows.reaches (h : pool.Grows pool') (hReaches : pool.Reaches text) :
    pool'.Reaches text := by
  intro offset hLookup
  obtain ⟨new, hNew, hLe⟩ := h.known
  rw [hNew, List.lookup_append, Option.or_eq_some_iff] at hLookup
  rcases hLookup with hOld | ⟨_, hAdded⟩
  · exact hReaches offset hOld
  · obtain ⟨before, after, hSplit, _⟩ := List.lookup_eq_some_iff.1 hAdded
    exact hLe (Text.units text, offset) (by rw [hSplit]; simp)

/-- A request has two ways to succeed. Only the second one, which adds the text, checks that a token
can hold the offset. -/
theorem intern_eq_ok (hIntern : intern text pool = .ok t pool') :
    (∃ offset, pool.known.lookup (Text.units text) = some offset ∧
      t = Token.ofParts Token.literalTable offset ∧ pool' = pool) ∨
    ∃ bs, pool.known.lookup (Text.units text) = none ∧ pool.data.size ≤ maxOffset ∧
      Compressed.encode ((Text.units text).length * 2 + 1) = .ok bs ∧
      t = Token.ofParts Token.literalTable pool.data.size ∧
      pool' = ⟨pool.data ++ (bs ++ entryBody (Text.units text)).toArray,
        pool.known ++ [(Text.units text, pool.data.size)], pool.added + 1⟩ := by
  unfold intern at hIntern
  dsimp only at hIntern
  split at hIntern
  · rename_i offset hKnown
    cases hIntern
    exact .inl ⟨offset, hKnown, rfl, rfl⟩
  · rename_i hNew
    split at hIntern
    · cases hIntern
    rename_i hRoom
    split at hIntern
    · cases hIntern
    split at hIntern
    · cases hIntern
    · rename_i bs hLength
      cases hIntern
      exact .inr ⟨bs, hNew, Nat.le_of_not_lt hRoom, hLength, rfl, rfl⟩

/-- Units that were written are read back, by induction on the units and with the offset left open.
-/
theorem unitsAt_of_holds {data : Bytes} {offset : Nat} {units : List UInt16}
    (hHolds : data.Holds offset (units.flatMap fun u => leBytes 2 u.toNat)) :
    Literals.unitsAt data offset units.length = units := by
  induction units generalizing offset with
  | nil => rfl
  | cons u rest ih =>
      rw [List.flatMap_cons] at hHolds
      obtain ⟨hFirst, hRest⟩ := holds_append.1 hHolds
      rw [length_leBytes] at hRest
      have hTail := ih hRest
      rw [Literals.unitsAt] at hTail ⊢
      rw [List.length_cons, List.range_succ_eq_map, List.map_cons, List.map_map]
      congr 1
      · rw [Nat.mul_zero, Nat.add_zero, hFirst.uintAt_of_lt u.toNat_lt, UInt16.ofNat_toNat]
      · refine Eq.trans (List.map_congr_left fun i _ => ?_) hTail
        simp only [Function.comp_apply]
        congr 2
        omega

/-- The bytes of an entry. They are those of a text only if its length has a form. -/
def entry (units : List UInt16) : List UInt8 :=
  (Compressed.encode (units.length * 2 + 1)).toOption.getD [] ++ entryBody units

theorem entry_of_encode {units : List UInt16} {bs : List UInt8}
    (hLength : Compressed.encode (units.length * 2 + 1) = .ok bs) :
    entry units = bs ++ entryBody units := by
  rw [entry, hLength]
  rfl

/-- An entry that is added is read back from the place where it was put. -/
theorem walks_added (data : Bytes) {units : List UInt16}
    (hLength : units.length * 2 + 1 < 0x20000000) :
    Literals.Walks (data ++ (entry units).toArray) data.size [(data.size, units)]
      (data ++ (entry units).toArray).size := by
  obtain ⟨bs, hEncode⟩ := Compressed.exists_encode_iff.2 hLength
  have hHolds := holds_end data (entry units).toArray
  rw [entry_of_encode hEncode] at hHolds
  obtain ⟨hPrefix, hBody⟩ := holds_append.1 hHolds
  obtain ⟨hUnits, hLast⟩ := holds_append.1 hBody
  have hWidth : (units.flatMap fun u => leBytes 2 u.toNat).length = units.length * 2 := by
    simp [List.length_flatMap]
  have hEnd := hLast.1
  rw [hWidth, List.length_singleton] at hEnd
  have hScan := Literals.scanEntry_of_scan (Compressed.scan_of_encode hEncode hPrefix) (by omega)
  have hHalf : (units.length * 2 + 1) / 2 = units.length := by omega
  rw [hHalf, unitsAt_of_holds hUnits] at hScan
  rw [entry_of_encode hEncode]
  have hStop : data.size + bs.length + (units.length * 2 + 1)
      = (data ++ (bs ++ entryBody units).toArray).size := by
    simp [entryBody, hWidth]
    omega
  rw [hStop] at hScan
  exact .cons hScan .nil

/-- Asking for a text never moves or changes another one. -/
theorem Grows.of_intern (hIntern : intern text pool = .ok t pool') : pool.Grows pool' := by
  rcases intern_eq_ok hIntern with ⟨_, _, _, rfl⟩ | ⟨bs, _, hRoom, _, _, rfl⟩
  · exact .refl _
  · have hNew : ∀ e ∈ [(Text.units text, pool.data.size)], e.2 ≤ maxOffset := by simpa using hRoom
    exact ⟨by simp, agree_append _ _, ⟨_, rfl, hNew⟩, Nat.le_succ _,
      fun h => (Nat.succ_ne_self _ h).elim⟩

/-- What is added is read back from where it was put, and what was known before is not touched. -/
theorem sound_of_intern (hSound : pool.Sound) (hIntern : intern text pool = .ok t pool') :
    pool'.Sound := by
  have hGrows := Grows.of_intern hIntern
  rcases intern_eq_ok hIntern with ⟨_, _, _, rfl⟩ | ⟨bs, _, _, hLength, _, rfl⟩
  · exact hSound
  · unfold Sound
    rw [List.forall_mem_append, List.forall_mem_singleton]
    have hAdded := walks_added pool.data (Compressed.exists_encode_iff.1 ⟨bs, hLength⟩)
    rw [entry_of_encode hLength] at hAdded
    exact ⟨fun e hMem => Literals.getUnits_congr (hSound e hMem) hGrows.agree hGrows.size_le,
      hAdded.getUnits (List.mem_singleton_self _)⟩

/-- Once a text was asked for it is known, and its token is that of the offset. -/
theorem lookup_of_intern (hIntern : intern text pool = .ok t pool') :
    ∃ offset, pool'.known.lookup (Text.units text) = some offset ∧
      t = Token.ofParts Token.literalTable offset := by
  rcases intern_eq_ok hIntern with ⟨offset, hKnown, rfl, rfl⟩ | ⟨bs, hNew, _, _, rfl, rfl⟩
  · exact ⟨offset, hKnown, rfl⟩
  · exact ⟨pool.data.size, by simp [List.lookup_append, hNew], rfl⟩

theorem row_of_le {offset : Nat} (hLe : offset ≤ maxOffset) :
    (Token.ofParts Token.literalTable offset).row = offset := by
  rw [Token.row_ofParts, Nat.mod_eq_of_lt]
  exact Nat.lt_succ_of_le hLe

/-- A text that the pool does not reach is given a token all the same. The token names the place
that the low bits of the offset give, which is another one. -/
theorem row_of_not_reaches (hBeyond : ¬ pool.Reaches text)
    (hIntern : intern text pool = .ok t pool') : pool' = pool ∧
      ∃ offset, pool.known.lookup (Text.units text) = some offset ∧ maxOffset < offset ∧
        t.row = offset % (maxOffset + 1) ∧ t.row < offset := by
  unfold Reaches at hBeyond
  push Not at hBeyond
  obtain ⟨offset, hKnown, hBeyond⟩ := hBeyond
  rcases intern_eq_ok hIntern with ⟨offset', hSame, rfl, rfl⟩ | ⟨_, hNew, _⟩
  · obtain rfl := Option.some.inj (hKnown.symm.trans hSame)
    have hRow : (Token.ofParts Token.literalTable offset).row = offset % (maxOffset + 1) :=
      Token.row_ofParts _ _
    have hLess : offset % (maxOffset + 1) < maxOffset + 1 := Nat.mod_lt _ (Nat.succ_pos _)
    exact ⟨rfl, offset, hKnown, hBeyond, hRow, by omega⟩
  · cases hKnown.symm.trans hNew

/-- After a text was asked for, the pool holds it, and the token that was given leads to it. -/
theorem grows_of_intern (hSound : pool.Sound) (hReaches : pool.Reaches text)
    (hIntern : intern text pool = .ok t pool') :
    pool'.Sound ∧ pool.Grows pool' ∧ t.table = Token.literalTable ∧
      (Text.units text, t.row) ∈ pool'.known := by
  have hGrows := Grows.of_intern hIntern
  obtain ⟨offset, hKnown, rfl⟩ := lookup_of_intern hIntern
  refine ⟨sound_of_intern hSound hIntern, hGrows, Token.table_ofParts _ _, ?_⟩
  obtain ⟨before, after, hSplit, _⟩ := List.lookup_eq_some_iff.1 hKnown
  rw [row_of_le (hGrows.reaches hReaches offset hKnown), hSplit]
  simp

theorem Grows.mem_known (h : pool.Grows pool') {e : List UInt16 × Nat} (hMem : e ∈ pool.known) :
    e ∈ pool'.known := by
  obtain ⟨new, hNew, _⟩ := h.known
  rw [hNew]
  exact List.mem_append_left _ hMem

/-- Only a literal without a token needs one. All other operands stay as they are. -/
theorem grows_of_operand {operand interned : Operand} (hSound : pool.Sound)
    (hReaches : ∀ text, operand = .literal ⟨none, text⟩ → pool.Reaches text)
    (hIntern : operand.intern intern pool = .ok interned pool') :
    pool'.Sound ∧ pool.Grows pool' ∧ (interned = operand ∨ ∃ t text,
      interned = .literal ⟨some t, text⟩ ∧ t.table = Token.literalTable ∧
      (Text.units text, t.row) ∈ pool'.known) := by
  unfold Operand.intern at hIntern
  split at hIntern
  · rename_i text
    obtain ⟨t, middle, hToken, hPure⟩ := Edit.bind_eq_ok.1 hIntern
    obtain ⟨rfl, rfl⟩ := Edit.pure_eq_ok.1 hPure
    obtain ⟨hSound', hGrows, hTable, hKnown⟩ := grows_of_intern hSound (hReaches text rfl) hToken
    exact ⟨hSound', hGrows, .inr ⟨t, text, rfl, hTable, hKnown⟩⟩
  · obtain ⟨rfl, rfl⟩ := Edit.pure_eq_ok.1 hIntern
    exact ⟨hSound, .refl _, .inl rfl⟩

/-- The heap grows whether or not tokens have room, which is why this asks for less. -/
theorem Grows.of_operand {operand interned : Operand}
    (hIntern : operand.intern intern pool = .ok interned pool') : pool.Grows pool' := by
  unfold Operand.intern at hIntern
  split at hIntern
  · obtain ⟨t, middle, hToken, hPure⟩ := Edit.bind_eq_ok.1 hIntern
    obtain ⟨-, rfl⟩ := Edit.pure_eq_ok.1 hPure
    exact .of_intern hToken
  · obtain ⟨-, rfl⟩ := Edit.pure_eq_ok.1 hIntern
    exact .refl _

theorem Grows.of_internAll {entries interned : List (Handle × Instruction)}
    (hIntern : Listing.internAll intern entries pool = .ok interned pool') : pool.Grows pool' := by
  induction entries generalizing pool interned with
  | nil =>
      obtain ⟨-, rfl⟩ := Edit.pure_eq_ok.1 hIntern
      exact .refl _
  | cons entry rest ih =>
      obtain ⟨operand, middle, tail, hOperand, hTail, -⟩ := Listing.internAll_cons_eq_ok.1 hIntern
      exact (Grows.of_operand hOperand).trans (ih hTail)

/-- A text that was asked for is known from then on. -/
theorem exists_known_of_internAll {entries interned : List (Handle × Instruction)}
    (hIntern : Listing.internAll intern entries pool = .ok interned pool')
    {entry : Handle × Instruction} (hMem : entry ∈ entries)
    (hText : entry.2.operand = .literal ⟨none, text⟩) :
    ∃ offset, (Text.units text, offset) ∈ pool'.known := by
  induction entries generalizing pool interned with
  | nil => cases hMem
  | cons first rest ih =>
      obtain ⟨operand, middle, tail, hOperand, hTail, -⟩ := Listing.internAll_cons_eq_ok.1 hIntern
      rcases List.mem_cons.1 hMem with rfl | hMem
      · rw [hText] at hOperand
        obtain ⟨t, _, hToken, hPure⟩ := Edit.bind_eq_ok.1 hOperand
        obtain ⟨-, rfl⟩ := Edit.pure_eq_ok.1 hPure
        obtain ⟨offset, hKnown, -⟩ := lookup_of_intern hToken
        obtain ⟨before, after, hSplit, -⟩ := List.lookup_eq_some_iff.1 hKnown
        exact ⟨offset, (Grows.of_internAll hTail).mem_known (by rw [hSplit]; simp)⟩
      · exact ih hTail hMem

/-- A pool that held no text grows exactly if some literal needs a token. -/
theorem added_pos_iff_of_internAll {entries interned : List (Handle × Instruction)}
    (hNothing : pool.known = []) (hStart : pool.added = 0)
    (hIntern : Listing.internAll intern entries pool = .ok interned pool') :
    0 < pool'.added ↔ ∃ entry ∈ entries, ∃ text, entry.2.operand = .literal ⟨none, text⟩ := by
  constructor
  · intro hAdded
    by_contra hNone
    push Not at hNone
    rw [Listing.internAll_of_has_token intern hNone pool] at hIntern
    cases hIntern
    omega
  · rintro ⟨entry, hMem, text, hText⟩
    obtain ⟨offset, hKnown⟩ := exists_known_of_internAll hIntern hMem hText
    refine Nat.pos_of_ne_zero fun hAdded => ?_
    rw [(Grows.of_internAll hIntern).same (hAdded.trans hStart.symm), hNothing] at hKnown
    cases hKnown

/-- The literals of a listing are found in the heap that is left behind, by their tokens. -/
theorem knows_of_internAll {entries interned : List (Handle × Instruction)} (hSound : pool.Sound)
    (hReaches : ∀ entry ∈ entries, ∀ text, entry.2.operand = .literal ⟨none, text⟩ →
      pool.Reaches text)
    (hIntern : Listing.internAll intern entries pool = .ok interned pool') :
    pool'.Sound ∧ pool.Grows pool' ∧ ∀ resolver : Resolver,
      (∀ entry ∈ entries, resolver.Knows entry.2.operand) →
      (∀ t text, t.table = Token.literalTable → (Text.units text, t.row) ∈ pool'.known →
        resolver.literal t = .ok text) →
      ∀ entry ∈ interned, resolver.Knows entry.2.operand := by
  induction entries generalizing pool interned with
  | nil =>
      obtain ⟨rfl, rfl⟩ := Edit.pure_eq_ok.1 hIntern
      exact ⟨hSound, .refl _, by simp⟩
  | cons entry rest ih =>
      rw [List.forall_mem_cons] at hReaches
      obtain ⟨operand, middle, tail, hOperand, hTail, rfl⟩ :=
        Listing.internAll_cons_eq_ok.1 hIntern
      obtain ⟨hMiddle, hGrows, hHead⟩ := grows_of_operand hSound hReaches.1 hOperand
      obtain ⟨hLast, hGrows', hKnows⟩ :=
        ih hMiddle (fun e hMem text hText => hGrows.reaches (hReaches.2 e hMem text hText)) hTail
      refine ⟨hLast, hGrows.trans hGrows', fun resolver hKnown hFinds => ?_⟩
      rw [List.forall_mem_cons] at hKnown ⊢
      refine ⟨?_, hKnows resolver hKnown.2 hFinds⟩
      rcases hHead with rfl | ⟨t, text, rfl, hTable, hMem⟩
      · exact hKnown.1
      · exact hFinds t text hTable (hGrows'.mem_known hMem)

end IlSplice.LiteralPool
