import IlSplice.Proofs.Heap.LiteralPool

/-! Texts that are asked for one after the other. The heap keeps its entries, and each text that is
given a token and that the heap did not hold gets exactly one entry, in the order of the requests.
-/

namespace IlSplice

/-- Different texts have different units, so that texts may be compared by them. -/
theorem Text.units_injective : Function.Injective Text.units :=
  Function.LeftInverse.injective Text.ofUnits_units

namespace LiteralPool

open Bytes

/-- Asks for a text, and lists it with its token behind those that were given before. -/
def request (state : List (String × Token) × LiteralPool) (text : String) :
    List (String × Token) × LiteralPool :=
  match intern text state.2 with
  | .ok t pool => (state.1 ++ [(text, t)], pool)
  | .error _ pool => (state.1, pool)

/-- Asks for texts one after the other, and goes on where one of them gets no token. -/
def requestAll (pool : LiteralPool) (texts : List String) : List (String × Token) × LiteralPool :=
  texts.foldl request ([], pool)

/-- An entry that is not empty holds the text. -/
def isHeld (original : List (Nat × List UInt16)) (text : String) : Bool :=
  original.any fun e => !e.2.isEmpty && e.2 == Text.units text

/-- The texts that were given tokens and not held before, each once and the earliest first. -/
def newTexts (original : List (Nat × List UInt16)) (given : List (String × Token)) : List String :=
  ((given.map Prod.fst).filter fun text => !isHeld original text).eraseDups

/-- The entries of texts that stand one behind the other from an offset on. -/
def placed (offset : Nat) : List String → List (Nat × List UInt16)
  | [] => []
  | text :: rest =>
      (offset, Text.units text) :: placed (offset + (entry (Text.units text)).length) rest

variable {pool pool' : LiteralPool} {data : Bytes} {original : List (Nat × List UInt16)}
  {new : List String} {text : String} {t : Token} {given : List (String × Token)} {offset : Nat}

/-- One more answer adds its text to the new ones, unless the text is held or was new before. -/
theorem newTexts_append : newTexts original (given ++ [(text, t)])
    = if isHeld original text ∨ text ∈ newTexts original given then newTexts original given
      else newTexts original given ++ [text] := by
  unfold newTexts
  rw [List.map_append, List.filter_append, List.eraseDups_append]
  cases hHeld : isHeld original text with
  | true => simp [hHeld]
  | false =>
      by_cases hMem : text ∈ (given.map Prod.fst).filter fun text => !isHeld original text
      · simp [hHeld, hMem, List.removeAll]
      · simp [hHeld, hMem, List.removeAll, List.eraseDups_cons]

theorem placed_append : placed offset (new ++ [text]) = placed offset new
    ++ [(offset + (new.flatMap fun text => entry (Text.units text)).length, Text.units text)] := by
  induction new generalizing offset with
  | nil => rfl
  | cons first rest ih =>
      rw [List.cons_append, placed, ih, placed, List.flatMap_cons, List.length_append,
        List.cons_append, Nat.add_assoc]

theorem map_snd_placed : (placed offset new).map Prod.snd = new.map Text.units := by
  induction new generalizing offset with
  | nil => rfl
  | cons first rest ih => rw [placed, List.map_cons, ih, List.map_cons]

/-- The pool has grown from a heap with the given entries, by the entries of new texts. -/
structure Grown (pool : LiteralPool) (data : Bytes) (original : List (Nat × List UInt16))
    (new : List String) : Prop where
  data_eq : pool.data = data ++ (new.flatMap fun text => entry (Text.units text)).toArray
  known_eq : pool.known = ((original.filter fun e => !e.2.isEmpty) ++ placed data.size new).map
    fun e => (e.2, e.1)
  added_eq : pool.added = new.length
  formed : ∀ text ∈ new, ∃ bs, Compressed.encode ((Text.units text).length * 2 + 1) = .ok bs
  walks : Literals.Walks pool.data 1 (original ++ placed data.size new) pool.data.size

/-- What is not known is neither held nor new. -/
theorem Grown.lookup_eq_none (hGrown : pool.Grown data original new) :
    pool.known.lookup (Text.units text) = none ↔ isHeld original text = false ∧ text ∉ new := by
  have hNew : text ∈ new ↔ Text.units text ∈ (placed data.size new).map Prod.snd := by
    rw [map_snd_placed, List.mem_map_of_injective Text.units_injective]
  rw [List.lookup_eq_none_iff, hGrown.known_eq, hNew, isHeld, List.any_eq_false, List.map_append,
    List.forall_mem_append]
  refine and_congr ⟨fun hNone e hMem hHeld => ?_, fun hNone e hMem => ?_⟩
    ⟨fun hNone hMem => ?_, fun hNone e hMem => ?_⟩
  · rw [Bool.and_eq_true, beq_iff_eq] at hHeld
    have hKnown := hNone (e.2, e.1)
      (List.mem_map.2 ⟨e, List.mem_filter.2 ⟨hMem, hHeld.1⟩, rfl⟩)
    simp [hHeld.2] at hKnown
  · obtain ⟨entry, hEntry, rfl⟩ := List.mem_map.1 hMem
    obtain ⟨hOld, hText⟩ := List.mem_filter.1 hEntry
    have hOther := hNone entry hOld
    rw [hText, Bool.true_and, beq_iff_eq] at hOther
    simpa using Ne.symm hOther
  · obtain ⟨e, hEntry, hSame⟩ := List.mem_map.1 hMem
    have hKnown := hNone (e.2, e.1) (List.mem_map.2 ⟨e, hEntry, rfl⟩)
    simp [hSame] at hKnown
  · obtain ⟨e, hEntry, rfl⟩ := List.mem_map.1 hMem
    have hOther : Text.units text ≠ e.2 := fun hSame =>
      hNone (List.mem_map.2 ⟨e, hEntry, hSame.symm⟩)
    simpa using hOther

/-- Before the first request nothing has grown. This starts the induction over requests. -/
theorem grown_of_ofBytes (hPool : ofBytes data = .ok pool) : ∃ original,
    Literals.entries ⟨data⟩ = (original.toArray, none) ∧ pool.Grown data original [] := by
  obtain ⟨original, hWalks, hEntries, rfl⟩ := walks_of_ofBytes hPool
  exact ⟨original, hEntries, by simp, by simp [placed], rfl, by simp,
    by simpa [placed] using hWalks⟩

/-- A request adds the entry of its text, unless the text is known. -/
theorem Grown.intern (hGrown : pool.Grown data original new)
    (hIntern : intern text pool = .ok t pool') : pool'.Grown data original
      (if isHeld original text ∨ text ∈ new then new else new ++ [text]) := by
  have hKnown : pool.known.lookup (Text.units text) = none ↔ _ := hGrown.lookup_eq_none
  rcases intern_eq_ok hIntern with ⟨offset, hLookup, _, rfl⟩ | ⟨bs, hLookup, _, hLength, _, rfl⟩
  · rw [hLookup] at hKnown
    have hOld : isHeld original text = true ∨ text ∈ new := by
      by_contra hNew
      rw [not_or, Bool.not_eq_true] at hNew
      cases hKnown.2 hNew
    rwa [if_pos hOld]
  · obtain ⟨hHeld, hNew⟩ := hKnown.1 hLookup
    have hOffset : data.size + (new.flatMap fun text => entry (Text.units text)).length
        = pool.data.size := by
      simp [hGrown.data_eq]
    have hAdded := walks_added pool.data (Compressed.exists_encode_iff.1 ⟨bs, hLength⟩)
    have hAgree : pool.data.Agree (pool.data ++ (entry (Text.units text)).toArray) 1
        pool.data.size := (agree_append _ _).mono (Nat.zero_le _) (Nat.le_refl _)
    rw [if_neg (by simp [hHeld, hNew]), ← entry_of_encode hLength]
    refine ⟨?_, ?_, ?_, ?_, ?_⟩
    · rw [hGrown.data_eq, List.flatMap_append, List.flatMap_singleton, ← List.append_toArray,
        Array.append_assoc]
    · rw [hGrown.known_eq, placed_append, hOffset]
      simp
    · rw [hGrown.added_eq, List.length_append, List.length_singleton]
    · rw [List.forall_mem_append, List.forall_mem_singleton]
      exact ⟨hGrown.formed, bs, hLength⟩
    · rw [placed_append, hOffset, ← List.append_assoc]
      exact (hGrown.walks.congr hAgree (by simp)).append hAdded

/-- A request that fails changes nothing. -/
theorem eq_of_intern_eq_error {fault : Fault} (hIntern : intern text pool = .error fault pool') :
    pool' = pool := by
  unfold LiteralPool.intern at hIntern
  dsimp only at hIntern
  split at hIntern
  · cases hIntern
  · split at hIntern
    · cases hIntern
      rfl
    · split at hIntern
      · cases hIntern
        rfl
      · split at hIntern
        · cases hIntern
          rfl
        · cases hIntern

/-- A text that is not known gets no token exactly where the heap or the text is too long. -/
theorem exists_intern_eq_error_iff (hNew : pool.known.lookup (Text.units text) = none) :
    (∃ fault pool', intern text pool = .error fault pool') ↔
      maxOffset < pool.data.size ∨ 0x1FFFFFFF < 2 * (Text.units text).length + 1 := by
  have hForm := Compressed.exists_encode_iff (n := (Text.units text).length * 2 + 1)
  unfold LiteralPool.intern
  dsimp only
  rw [hNew]
  dsimp only
  split
  · simp_all
  · split
    · simp
      omega
    · cases hEncode : Compressed.encode ((Text.units text).length * 2 + 1) with
      | error fault =>
          rw [hEncode] at hForm
          simp at hForm
          simp
          omega
      | ok bs =>
          have hShort := hForm.1 ⟨bs, hEncode⟩
          simp
          omega

/-- What is known is given again. -/
theorem intern_of_lookup (hLookup : pool.known.lookup (Text.units text) = some offset) :
    intern text pool = .ok (Token.ofParts Token.literalTable offset) pool := by
  unfold LiteralPool.intern
  dsimp only
  rw [hLookup]

theorem Grows.lookup (hGrows : pool.Grows pool') {units : List UInt16}
    (hLookup : pool.known.lookup units = some offset) :
    pool'.known.lookup units = some offset := by
  obtain ⟨new, hNew, _⟩ := hGrows.known
  rw [hNew, List.lookup_append, hLookup, Option.some_or]

/-- What the requests up to now have led to. -/
structure Answered (pool : LiteralPool) (data : Bytes) (original : List (Nat × List UInt16))
    (state : List (String × Token) × LiteralPool) : Prop where
  grows : pool.Grows state.2
  sound : state.2.Sound
  grown : state.2.Grown data original (newTexts original state.1)
  token : ∀ answer ∈ state.1, ∃ offset,
    state.2.known.lookup (Text.units answer.1) = some offset ∧
      answer.2 = Token.ofParts Token.literalTable offset

variable {state : List (String × Token) × LiteralPool}

/-- One more request keeps all that is known about those before it. Here the cases of a request are
told apart once for all properties. -/
theorem Answered.request (hState : pool.Answered data original state) (text : String) :
    pool.Answered data original (request state text) := by
  unfold LiteralPool.request
  split
  · rename_i t next hIntern
    have hGrows := Grows.of_intern hIntern
    refine ⟨hState.grows.trans hGrows, sound_of_intern hState.sound hIntern, ?_, ?_⟩
    · rw [newTexts_append]
      exact hState.grown.intern hIntern
    · rw [List.forall_mem_append, List.forall_mem_singleton]
      refine ⟨fun answer hMem => ?_, lookup_of_intern hIntern⟩
      obtain ⟨offset, hLookup, hToken⟩ := hState.token answer hMem
      exact ⟨offset, hGrows.lookup hLookup, hToken⟩
  · rename_i fault next hIntern
    obtain rfl := eq_of_intern_eq_error hIntern
    exact hState

/-- By induction on the requests made up to now, since each further one keeps what they led to. -/
theorem answered_requestAll (hPool : ofBytes data = .ok pool) : ∃ original,
    Literals.entries ⟨data⟩ = (original.toArray, none) ∧
      ∀ texts, pool.Answered data original (requestAll pool texts) := by
  obtain ⟨original, hEntries, hGrown⟩ := grown_of_ofBytes hPool
  obtain ⟨_, _, hSound⟩ := sound_of_ofBytes hPool
  exact ⟨original, hEntries, fun texts => texts.foldlRecOn LiteralPool.request
    ⟨.refl pool, hSound, hGrown, by simp⟩ fun _ hState text _ => hState.request text⟩

/-- The most bytes of a heap that a text was added to. The text starts where a token can still lead,
and its length has a form. -/
def maxSize : Nat := maxOffset + 4 + 0x1FFFFFFF

/-- Only a text that is added makes the heap larger, and only from where a token can still lead. -/
theorem size_le_of_intern (hIntern : intern text pool = .ok t pool') :
    pool'.data.size ≤ max pool.data.size maxSize := by
  rcases intern_eq_ok hIntern with ⟨_, _, _, rfl⟩ | ⟨bs, _, hRoom, hLength, _, rfl⟩
  · exact le_max_left _ _
  · refine Nat.le_trans ?_ (le_max_right _ _)
    have hPrefix := Compressed.length_encode_le hLength
    have hText := Compressed.exists_encode_iff.1 ⟨bs, hLength⟩
    have hEntry : (bs ++ entryBody (Text.units text)).length
        = bs.length + ((Text.units text).length * 2 + 1) := by
      simp [entryBody, List.length_flatMap]
    have hSize : (pool.data ++ (bs ++ entryBody (Text.units text)).toArray).size
        = pool.data.size + (bs ++ entryBody (Text.units text)).length := Array.size_append
    unfold maxSize
    dsimp only
    omega

/-- However many texts are asked for, the heap stays bounded, since it takes no text any more once
it is too large. -/
theorem size_requestAll_le (pool : LiteralPool) (texts : List String) :
    (requestAll pool texts).2.data.size ≤ max pool.data.size maxSize := by
  have hStart : (([], pool) : List (String × Token) × LiteralPool).2.data.size
      ≤ max pool.data.size maxSize := le_max_left _ _
  refine texts.foldlRecOn LiteralPool.request
    (motive := fun state => state.2.data.size ≤ max pool.data.size maxSize)
    hStart fun state hState text _ => ?_
  unfold LiteralPool.request
  split
  · rename_i t next hIntern
    have hNext := size_le_of_intern hIntern
    exact le_trans hNext (max_le hState (le_max_right _ _))
  · rename_i fault next hIntern
    rwa [eq_of_intern_eq_error hIntern]

/-- The filling behind a heap is read as entries without a text. -/
theorem entries_finish {entries : List (Nat × List UInt16)}
    (hWalks : Literals.Walks pool.data 1 entries pool.data.size) : ∃ count < 4,
    pool.finish = pool.data ++ Array.replicate count 0 ∧ Literals.entries ⟨pool.finish⟩
      = ((entries ++ (List.range' pool.data.size count).map fun offset => (offset, [])).toArray,
        none) := by
  refine ⟨alignUp pool.data.size 4 - pool.data.size, by unfold alignUp; omega, rfl,
    Literals.entries_of_walks ?_⟩
  have hFilling := Literals.walks_zeros pool.data (alignUp pool.data.size 4 - pool.data.size)
  obtain ⟨hAgree, hSize⟩ := agree_padTo pool.data 4 (by decide)
  have hStop : pool.finish.size = pool.data.size + (alignUp pool.data.size 4 - pool.data.size) := by
    simp [finish, padTo]
  rw [hStop]
  exact (hWalks.congr (hAgree.mono (Nat.zero_le _) (Nat.le_refl _)) hSize).append hFilling

/-- The units that need care are those with a high byte, the control codes of two ranges, and three
single ones. -/
theorem needsCare_iff {u : UInt16} : needsCare u = true ↔ u.toNat / 256 ≠ 0 ∨
    (0x01 ≤ u.toNat % 256 ∧ u.toNat % 256 ≤ 0x08) ∨ (0x0E ≤ u.toNat % 256 ∧ u.toNat % 256 ≤ 0x1F) ∨
    u.toNat % 256 = 0x27 ∨ u.toNat % 256 = 0x2D ∨ u.toNat % 256 = 0x7F := by
  simp [needsCare]
  tauto

/-- The last byte of an entry is one exactly if some unit needs care. -/
theorem terminal_eq_one_iff {units : List UInt16} :
    (if units.any needsCare then 1 else 0) = (1 : UInt8) ↔ ∃ u ∈ units, u.toNat / 256 ≠ 0 ∨
      (0x01 ≤ u.toNat % 256 ∧ u.toNat % 256 ≤ 0x08) ∨
      (0x0E ≤ u.toNat % 256 ∧ u.toNat % 256 ≤ 0x1F) ∨
      u.toNat % 256 = 0x27 ∨ u.toNat % 256 = 0x2D ∨ u.toNat % 256 = 0x7F := by
  simp only [List.any_eq_true, needsCare_iff]
  split
  · rename_i hCare
    exact ⟨fun _ => hCare, fun _ => rfl⟩
  · rename_i hPlain
    exact ⟨fun hZero => absurd hZero (by decide), fun hCare => absurd hCare hPlain⟩

/-- After any requests the heap consists of what it held at first, of one entry for each text that
was given a token and not held before, and of filling. Who asks for a text again gets the same token
and changes nothing; who gets no token changes nothing either. -/
theorem heap_of_requestAll (hPool : ofBytes data = .ok pool) : ∃ original,
    Literals.entries ⟨data⟩ = (original.toArray, none) ∧ ∀ texts : List String,
      let given := (requestAll pool texts).1
      let last := (requestAll pool texts).2
      let new := newTexts original given
      last.data = data ++ (new.flatMap fun text => entry (Text.units text)).toArray ∧
      (∃ count < 4, last.finish = last.data ++ Array.replicate count 0 ∧
        Literals.entries ⟨last.finish⟩ = ((original ++ placed data.size new ++
          (List.range' last.data.size count).map fun offset => (offset, [])).toArray, none)) ∧
      last.added = new.length ∧
      (∀ text t, (text, t) ∈ given → intern text last = .ok t last) ∧
      (∀ text ∈ new, ∃ length terminal,
        Compressed.encode ((Text.units text).length * 2 + 1) = .ok length ∧
        entry (Text.units text)
          = length ++ (Text.units text).flatMap (fun u => leBytes 2 u.toNat) ++ [terminal] ∧
        (terminal = 0 ∨ terminal = 1) ∧ (terminal = 1 ↔ ∃ u ∈ Text.units text, u.toNat / 256 ≠ 0 ∨
          (0x01 ≤ u.toNat % 256 ∧ u.toNat % 256 ≤ 0x08) ∨
          (0x0E ≤ u.toNat % 256 ∧ u.toNat % 256 ≤ 0x1F) ∨
          u.toNat % 256 = 0x27 ∨ u.toNat % 256 = 0x2D ∨ u.toNat % 256 = 0x7F)) ∧
      (∀ text, isHeld original text = false → text ∉ given.map Prod.fst →
        ((∃ fault pool', intern text last = .error fault pool') ↔
          0xFFFFFF < last.data.size ∨ 0x1FFFFFFF < 2 * (Text.units text).length + 1)) ∧
      ∀ text fault pool', intern text last = .error fault pool' → pool' = last := by
  obtain ⟨original, hEntries, hAnswered⟩ := answered_requestAll hPool
  refine ⟨original, hEntries, fun texts => ?_⟩
  have hState := hAnswered texts
  dsimp only
  refine ⟨hState.grown.data_eq, entries_finish hState.grown.walks, hState.grown.added_eq,
    fun text t hMem => ?_, fun text hMem => ?_, fun text hHeld hOther => ?_,
    fun text fault pool' => eq_of_intern_eq_error⟩
  · obtain ⟨offset, hLookup, rfl⟩ := hState.token _ hMem
    exact intern_of_lookup hLookup
  · obtain ⟨length, hLength⟩ := hState.grown.formed text hMem
    refine ⟨length, _, hLength, ?_, ?_, terminal_eq_one_iff⟩
    · rw [entry_of_encode hLength, entryBody, List.append_assoc]
    · split
      · exact .inr rfl
      · exact .inl rfl
  · refine exists_intern_eq_error_iff (hState.grown.lookup_eq_none.2 ⟨hHeld, fun hMem => hOther ?_⟩)
    rw [newTexts, List.mem_eraseDups] at hMem
    exact List.mem_of_mem_filter hMem

/-- A heap with the one text "A". -/
def ofOneText : Bytes := #[0, 3, 0x41, 0, 0]

theorem walks_ofOneText : Literals.Walks ofOneText 1 [(1, [0x41])] ofOneText.size :=
  .cons rfl .nil

theorem ofBytes_ofOneText : ofBytes ofOneText = .ok ⟨ofOneText, [([0x41], 1)], 0⟩ :=
  ofBytes_of_walks rfl walks_ofOneText

/-- One text is known, one is new, one is empty and one is asked for again. -/
theorem heap_of_requestAll_ofOneText : ∃ pool, ofBytes ofOneText = .ok pool ∧
    (requestAll pool ["A", "-", "", "-"]).2.added = 2 ∧
    Literals.entries ⟨(requestAll pool ["A", "-", "", "-"]).2.finish⟩
      = (#[(1, [0x41]), (5, [0x2D]), (9, []), (11, [])], none) := by
  refine ⟨_, ofBytes_ofOneText, ?_⟩
  obtain ⟨original, hOriginal, hRuns⟩ := heap_of_requestAll ofBytes_ofOneText
  rw [Literals.entries_of_walks walks_ofOneText] at hOriginal
  obtain rfl : [(1, [0x41])] = original := by simpa using hOriginal
  obtain ⟨_, ⟨count, _, hFinish, hEntries⟩, hAdded, _⟩ := hRuns ["A", "-", "", "-"]
  have hSize := congrArg Array.size hFinish
  rw [Array.size_append, Array.size_replicate,
    show (requestAll _ _).2.finish.size = 12 by decide,
    show (requestAll _ _).2.data.size = 11 by decide] at hSize
  obtain rfl : count = 1 := by omega
  exact ⟨hAdded, hEntries⟩

/-- The token that a text was given names a literal. It leads to the text, in the heap that is left
behind, if a token can hold the offset of the text where it was known from the start. -/
theorem found_of_requestAll (hPool : ofBytes data = .ok pool) {texts : List String}
    (hGiven : (text, t) ∈ (requestAll pool texts).1) : t.table = 0x70 ∧ (pool.Reaches text →
      Literals.getUnits ⟨(requestAll pool texts).2.finish⟩ t.row = .ok (Text.units text) ∧
      Literals.get ⟨(requestAll pool texts).2.finish⟩ t.row = .ok text) := by
  obtain ⟨original, _, hAnswered⟩ := answered_requestAll hPool
  have hState := hAnswered texts
  obtain ⟨offset, hLookup, rfl⟩ := hState.token _ hGiven
  obtain ⟨before, after, hKnown, _⟩ := List.lookup_eq_some_iff.1 hLookup
  obtain ⟨hAgree, hSize⟩ := agree_padTo (requestAll pool texts).2.data 4 (by decide)
  refine ⟨Token.table_ofParts _ _, fun hReaches => ?_⟩
  have hUnits := hState.sound (Text.units text, offset) (by rw [hKnown]; simp)
  have hFound : Literals.getUnits ⟨(requestAll pool texts).2.finish⟩ offset
      = .ok (Text.units text) := Literals.getUnits_congr hUnits hAgree hSize
  rw [row_of_le (hState.grows.reaches hReaches offset hLookup)]
  exact ⟨hFound, Literals.get_of_getUnits hFound⟩

theorem found_of_requestAll_ofOneText : ∃ pool, ofBytes ofOneText = .ok pool ∧
    ("A", ⟨0x70000001⟩) ∈ (requestAll pool ["-", "A"]).1 ∧ pool.Reaches "A" ∧
    Literals.get ⟨(requestAll pool ["-", "A"]).2.finish⟩ 1 = .ok "A" := by
  have hGiven : ("A", ⟨0x70000001⟩) ∈ (requestAll ⟨ofOneText, [([0x41], 1)], 0⟩ ["-", "A"]).1 := by
    decide
  have hReaches : (⟨ofOneText, [([0x41], 1)], 0⟩ : LiteralPool).Reaches "A" := by decide
  exact ⟨_, ofBytes_ofOneText, hGiven, hReaches,
    ((found_of_requestAll ofBytes_ofOneText hGiven).2 hReaches).2⟩

/-- A heap whose only entry holds zeros. The given bytes are the form of their number. -/
def ofZeros (count : Nat) : Bytes := #[0, 0xC1, 0, 0, 1] ++ Array.replicate count 0

theorem size_ofZeros (count : Nat) : (ofZeros count).size = 5 + count := by
  rw [ofZeros, Array.size_append, Array.size_replicate]
  rfl

/-- The zeros are units of a single entry, so that all places between its ends are skipped. -/
theorem walks_ofZeros {count : Nat} (hCount : count = 0x1000001) : ∃ zeros,
    zeros.length = 0x800000 ∧
      Literals.Walks (ofZeros count) 1 [(1, zeros)] (ofZeros count).size := by
  have hHolds : (ofZeros count).Holds 1 [0xC1, 0, 0, 1] :=
    holds_middle #[0] [0xC1, 0, 0, 1] (Array.replicate count 0)
  have hEncode : Compressed.encode count = .ok [0xC1, 0, 0, 1] := by
    rw [hCount]
    rfl
  have hScan := Literals.scanEntry_of_scan (Compressed.scan_of_encode hEncode hHolds)
    (Nat.le_of_eq (size_ofZeros count).symm)
  refine ⟨_, ?_, .cons (size_ofZeros count ▸ hScan) .nil⟩
  simp [Literals.unitsAt, hCount]

/-- Behind the zeros, a text is known at an offset that no token can hold. -/
theorem lookup_behind_ofZeros {count : Nat} (hCount : count = 0x1000001)
    (hData : data = ofZeros count ++ (entry (Text.units "A")).toArray) : ∃ pool,
      ofBytes data = .ok pool ∧ pool.data = data ∧
        pool.known.lookup (Text.units "A") = some (5 + count) := by
  obtain ⟨zeros, hLength, hZeros⟩ := walks_ofZeros hCount
  have hAgree : (ofZeros count).Agree data 1 (ofZeros count).size :=
    hData ▸ (agree_append _ _).mono (Nat.zero_le _) (Nat.le_refl _)
  have hShort : (Text.units "A").length * 2 + 1 < 0x20000000 := by decide
  have hAdded := walks_added (ofZeros count) hShort
  rw [← hData] at hAdded
  have hWalks := (hZeros.congr hAgree (by simp [hData])).append hAdded
  refine ⟨_, ofBytes_of_walks (by simp [hData, ofZeros]) hWalks, rfl, ?_⟩
  have hFirst : (Text.units "A" == zeros) = false := by
    rw [beq_eq_false_iff_ne]
    rintro rfl
    cases hLength
  have hText : zeros ≠ [] := by
    rintro rfl
    cases hLength
  simp [hText, size_ofZeros, List.lookup_cons, hFirst, show Text.units "A" ≠ [] by decide]

/-- A text that stands beyond all offsets that a token can hold is given a token all the same, and
the token leads to another text. -/
theorem misplaced_of_beyond : ¬ ∀ (data : Bytes) (pool : LiteralPool) (texts : List String)
    (text : String) (t : Token), ofBytes data = .ok pool → (text, t) ∈ (requestAll pool texts).1 →
      t.table = 0x70 ∧
      Literals.getUnits ⟨(requestAll pool texts).2.finish⟩ t.row = .ok (Text.units text) ∧
      Literals.get ⟨(requestAll pool texts).2.finish⟩ t.row = .ok text := by
  intro hFound
  -- The number is kept apart, since nothing should ever count up to it.
  obtain ⟨count, hCount⟩ : ∃ count, count = 0x1000001 := ⟨_, rfl⟩
  obtain ⟨pool, hPool, hData, hLookup⟩ := lookup_behind_ofZeros hCount rfl
  have hBeyond : ¬ pool.Reaches "A" := fun hReaches => by
    have hLess := hReaches _ hLookup
    unfold maxOffset at hLess
    omega
  have hIntern := intern_of_lookup hLookup
  have hAsk : requestAll pool ["A"]
      = ([("A", Token.ofParts Token.literalTable (5 + count))], pool) := by
    simp [requestAll, request, hIntern]
  have hGiven : ("A", Token.ofParts Token.literalTable (5 + count)) ∈ (requestAll pool ["A"]).1 :=
    hAsk ▸ List.mem_singleton_self _
  have hUnits := (hFound _ pool ["A"] "A" _ hPool hGiven).2.1
  obtain ⟨_, offset, hKnown, _, hRow, _⟩ := row_of_not_reaches hBeyond hIntern
  obtain rfl := Option.some.inj (hLookup.symm.trans hKnown)
  replace hRow : (Token.ofParts Token.literalTable (5 + count)).row = 6 := by
    rw [hRow, hCount]
    rfl
  have hZero : Literals.getUnits ⟨ofZeros count⟩ 6 = .ok [] :=
    (Literals.walks_zeros #[0, 0xC1, 0, 0, 1] count).getUnits
      (List.mem_map.2 ⟨6, by simp; omega, rfl⟩)
  obtain ⟨hAgree, hSize⟩ := agree_padTo pool.data 4 (by decide)
  have hBefore : (ofZeros count).Agree pool.data 0 (ofZeros count).size :=
    fun i _ hi => by rw [hData, Array.getElem?_append_left hi]
  have hLess : (ofZeros count).size ≤ pool.data.size := by
    simp [hData]
  have hEmpty : Literals.getUnits ⟨pool.finish⟩ 6 = .ok [] := Literals.getUnits_congr hZero
    (hBefore.trans (hAgree.mono (Nat.le_refl _) hLess)) (Nat.le_trans hLess hSize)
  rw [hAsk, hRow, hEmpty] at hUnits
  cases hUnits

end LiteralPool

end IlSplice
