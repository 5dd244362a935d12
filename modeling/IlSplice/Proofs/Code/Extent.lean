import IlSplice.Proofs.Code.Layout

/-! The room that instructions take when some of the branches are in their long form. It only grows
with these branches, and so does the way of every other branch to its target. -/

namespace IlSplice

/-- A long form takes more bytes than its short form. -/
theorem Instruction.encodedSize_le (i : Instruction) :
    i.encodedSize false ≤ i.encodedSize true := by
  have hAll : ∀ op ∈ Opcode.all, ∀ long ∈ op.long?, op.size = long.size := by decide +kernel
  unfold encodedSize form
  cases hLong : i.opcode.long? with
  | none => exact Nat.le_refl _
  | some long =>
      have hForm := i.opcode.long?_form
      have hSize := hAll i.opcode i.opcode.mem_all long hLong
      rw [hLong] at hForm
      split at hForm
      · rename_i hShort
        have hOne : i.operand.encodedSize i.opcode = 1 :=
          Operand.encodedSize_of_kind hShort rfl (by decide)
        have hFour : i.operand.encodedSize long = 4 :=
          Operand.encodedSize_of_kind (Option.some.inj hForm) rfl (by decide)
        simp only [Bool.false_eq_true, if_false, if_true, Option.getD_some]
        omega
      · cases hForm

/-- Only short branches have a target that may be out of reach, and it is their operand. -/
theorem Instruction.shortTarget?_eq_some {i : Instruction} {target : Handle}
    (hTarget : i.shortTarget? = some target) :
    i.opcode.operand = .shortBranch ∧ i.operand = .target target := by
  unfold shortTarget? at hTarget
  split at hTarget
  · cases hTarget
    exact ⟨‹_›, ‹_›⟩
  · cases hTarget

theorem Instruction.mem_targets_of_shortTarget? {i : Instruction} {target : Handle}
    (hTarget : i.shortTarget? = some target) : target ∈ i.targets := by
  rw [targets, (shortTarget?_eq_some hTarget).2]
  exact List.mem_singleton_self target

namespace Listing

/-- The short branches of a listing. -/
def shortBranches (l : Listing) : Finset Handle :=
  (Finset.range l.slots.size).filter fun h =>
    (l.get? h).any fun i => i.opcode.operand = .shortBranch

/-- The bytes of the first `count` instructions, if exactly the branches in `long` are in their long
form. -/
def extent (l : Listing) (long : Finset Handle) (count : Nat) : Nat :=
  ((l.entries.take count).map fun entry => entry.2.encodedSize (entry.1 ∈ long)).sum

/-- The way from the end of one instruction to the start of another one. -/
def way (l : Listing) (long : Finset Handle) (h target : Handle) : Int :=
  l.extent long (l.order.idxOf target) - l.extent long (l.order.idxOf h + 1)

/-- If exactly the branches in `long` are in their long form, one byte is enough for the way from
every other short branch to its target. -/
def Settled (l : Listing) (long : Finset Handle) : Prop :=
  ∀ h i target, l.get? h = some i → i.shortTarget? = some target → h ∉ long →
    -128 ≤ l.way long h target ∧ l.way long h target ≤ 127

/-- Branches lead to instructions of the listing. -/
def Closed (l : Listing) : Prop :=
  ∀ i ∈ l.slots, ∀ target ∈ i.targets, target < l.slots.size

variable {l : Listing} {long more : Finset Handle} {h target : Handle} {m n : Nat}

/-- Short branches are known by their opcode, whatever their operand. -/
theorem mem_shortBranches :
    h ∈ l.shortBranches ↔ ∃ i, l.get? h = some i ∧ i.opcode.operand = .shortBranch := by
  unfold shortBranches
  rw [Finset.mem_filter, Finset.mem_range, Option.any_eq_true]
  simp only [decide_eq_true_eq]
  refine ⟨And.right, fun hGet => ⟨?_, hGet⟩⟩
  obtain ⟨i, hGet, _⟩ := hGet
  exact (Array.getElem?_eq_some_iff.1 hGet).1

/-- Between two places there is no less room when more branches are in their long form. -/
theorem extent_add_le (hMore : long ⊆ more) (hmn : m ≤ n) :
    l.extent long n + l.extent more m ≤ l.extent more n + l.extent long m := by
  induction n, hmn using Nat.le_induction with
  | base => omega
  | succ n _ ih =>
      have hStep : ∀ set : Finset Handle, l.extent set (n + 1) = l.extent set n
          + (l.entries[n]?.map fun entry => entry.2.encodedSize (entry.1 ∈ set)).getD 0 := by
        intro set
        unfold extent
        rw [List.take_add_one, List.map_append, List.sum_append]
        cases l.entries[n]? <;> simp
      have hEntry : (l.entries[n]?.map fun entry => entry.2.encodedSize (entry.1 ∈ long)).getD 0
          ≤ (l.entries[n]?.map fun entry => entry.2.encodedSize (entry.1 ∈ more)).getD 0 := by
        cases l.entries[n]? with
        | none => exact Nat.le_refl _
        | some entry =>
            by_cases hLong : entry.1 ∈ long
            · simp [hLong, hMore hLong]
            · by_cases hSet : entry.1 ∈ more
              · simpa [hLong, hSet] using entry.2.encodedSize_le
              · simp [hLong, hSet]
      rw [hStep, hStep]
      omega

theorem extent_le (hmn : m ≤ n) : l.extent long m ≤ l.extent long n := by
  obtain ⟨k, rfl⟩ := Nat.exists_eq_add_of_le hmn
  unfold extent
  rw [List.take_add, List.map_append, List.sum_append]
  omega

/-- More long forms take no less room. -/
theorem extent_mono (hMore : long ⊆ more) : l.extent long n ≤ l.extent more n := by
  simpa [extent] using l.extent_add_le hMore (Nat.zero_le n)

/-- A target that is reached when more branches are in their long form is reached before. -/
theorem way_of_subset (hMore : long ⊆ more)
    (hReach : -128 ≤ l.way more h target ∧ l.way more h target ≤ 127) :
    -128 ≤ l.way long h target ∧ l.way long h target ≤ 127 := by
  unfold way at hReach ⊢
  rcases Nat.le_total (l.order.idxOf h + 1) (l.order.idxOf target) with hForward | hBack
  · have : l.extent long _ ≤ l.extent long _ := l.extent_le hForward
    have := l.extent_add_le hMore hForward
    omega
  · have : l.extent long _ ≤ l.extent long _ := l.extent_le hBack
    have := l.extent_add_le hMore hBack
    omega

end Listing

namespace LongForms

/-- The branches that are in their long form. -/
def branches (long : LongForms) : Finset Handle :=
  (Finset.range long.size).filter fun h => long.getD h false

variable {listing : Listing} {long settled : LongForms} {l : Layout} {far : List Handle}
  {h : Handle}

theorem mem_branches : h ∈ long.branches ↔ long.getD h false = true := by
  unfold branches
  rw [Finset.mem_filter, Finset.mem_range]
  refine ⟨And.right, fun hLong => ⟨?_, hLong⟩⟩
  by_contra hOutside
  rw [Array.getD_eq_getD_getElem?, Array.getElem?_eq_none (by omega)] at hLong
  cases hLong

theorem branches_none (listing : Listing) : (none listing).branches = ∅ := by
  refine Finset.eq_empty_of_forall_notMem fun h hMem => ?_
  rw [mem_branches, getD_none] at hMem
  cases hMem

/-- The size of the set is the number that is reported in the end. -/
theorem card_branches (long : LongForms) : long.branches.card = long.count true := by
  obtain ⟨forms⟩ := long
  rw [List.count_toArray]
  unfold branches
  induction forms using List.reverseRecOn with
  | nil => rfl
  | append_singleton forms last ih =>
      have hRest : (Finset.range forms.length).filter
            (fun h => (forms ++ [last]).toArray.getD h false = true)
          = (Finset.range forms.length).filter (fun h => forms.toArray.getD h false = true) := by
        refine Finset.filter_congr fun h hMem => ?_
        rw [Finset.mem_range] at hMem
        simp [Array.getD_eq_getD_getElem?, List.getElem?_append_left hMem]
      have hLast : (forms ++ [last]).toArray.getD forms.length false = last := by
        simp [Array.getD_eq_getD_getElem?]
      rw [List.size_toArray, List.length_append, List.length_singleton, Finset.range_add_one,
        Finset.filter_insert, hLast, hRest, List.count_append]
      cases last with
      | false => simpa using ih
      | true => simpa using ih

theorem decide_mem_branches (long : LongForms) (h : Handle) :
    decide (h ∈ long.branches) = long.getD h false := by
  rw [Bool.eq_iff_iff, decide_eq_true_iff, mem_branches]

/-- The room for all instructions in terms of the array that the layout looks at. -/
theorem extent_branches (long : LongForms) (listing : Listing) :
    listing.extent long.branches listing.size
      = (listing.entries.map fun e => e.2.encodedSize (long.getD e.1 false)).sum := by
  rw [Listing.extent, ← listing.length_entries, List.take_length]
  simp only [decide_mem_branches]

end LongForms

namespace Layout

variable {listing : Listing} {long : LongForms} {l : Layout} {start : Nat}
  {entries : List (Handle × Instruction)}

/-- An instruction starts behind all that stand in front of it. -/
theorem Places.startOf_eq (hPlaces : l.Places long start entries) {k : Nat}
    {entry : Handle × Instruction} (hEntry : entries[k]? = some entry) :
    l.startOf entry.1 = start
      + ((entries.take k).map fun e => e.2.encodedSize (long.getD e.1 false)).sum := by
  induction entries generalizing start k with
  | nil => cases hEntry
  | cons first rest ih =>
      obtain ⟨hFirst, hRest⟩ := hPlaces
      cases k with
      | zero =>
          cases hEntry
          exact hFirst
      | succ k =>
          rw [ih hRest hEntry, List.take_succ_cons, List.map_cons, List.sum_cons, Nat.add_assoc]

/-- The code takes the room of all instructions. -/
theorem Places.size_eq (hPlaces : l.Places long start entries) :
    l.size = start + (entries.map fun e => e.2.encodedSize (long.getD e.1 false)).sum := by
  induction entries generalizing start with
  | nil => exact hPlaces
  | cons first rest ih => rw [ih hPlaces.2, List.map_cons, List.sum_cons, Nat.add_assoc]

/-- The size of a layout depends only on which branches are long. -/
theorem size_eq_extent (hLayout : ofListing listing long = .ok l) :
    l.size = listing.extent long.branches listing.size := by
  rw [(places_of_ofListing hLayout).size_eq, Nat.zero_add, LongForms.extent_branches]

/-- The start of an instruction depends on the branches in front of it only. -/
theorem startOf_eq_extent (hLayout : ofListing listing long = .ok l) {h : Handle}
    {i : Instruction} (hGet : listing.get? h = some i) :
    l.startOf h = listing.extent long.branches (listing.order.idxOf h) := by
  have hStart := (places_of_ofListing hLayout).startOf_eq (Listing.entries_idxOf hGet)
  rw [Nat.zero_add] at hStart
  rw [hStart, Listing.extent]
  simp only [LongForms.decide_mem_branches]

theorem stop_eq_extent (hLayout : ofListing listing long = .ok l) {h : Handle}
    {i : Instruction} (hGet : listing.get? h = some i) :
    l.stop long h i = listing.extent long.branches (listing.order.idxOf h + 1) := by
  have hStart := startOf_eq_extent hLayout hGet
  rw [startOf] at hStart
  rw [stop, hStart, Listing.extent, Listing.extent, List.take_add_one, Listing.entries_idxOf hGet,
    List.map_append, List.sum_append]
  simp [LongForms.decide_mem_branches]

theorem stop_le_size (hLayout : ofListing listing long = .ok l) {h : Handle}
    {i : Instruction} (hGet : listing.get? h = some i) : l.stop long h i ≤ l.size := by
  have hIn := List.idxOf_lt_length_of_mem
    (listing.mem_order.2 (Array.getElem?_eq_some_iff.1 hGet).1)
  rw [stop_eq_extent hLayout hGet, size_eq_extent hLayout]
  exact listing.extent_le hIn

theorem startOf_le_size (hLayout : ofListing listing long = .ok l) {h : Handle}
    (hSlot : h < listing.slots.size) : l.startOf h ≤ l.size := by
  have hStop := stop_le_size hLayout (Listing.get?_of_lt hSlot)
  rw [stop, ← startOf] at hStop
  omega

/-- The layout reckons with the way to a target that is in the listing. -/
theorem displacement_eq_way (hLayout : ofListing listing long = .ok l) {h target : Handle}
    {i : Instruction} (hGet : listing.get? h = some i) (hTarget : target < listing.slots.size) :
    l.displacement target (l.stop long h i) = .ok (listing.way long.branches h target) := by
  have hSlot : target < l.starts.size := by rwa [size_starts_of_ofListing hLayout]
  have hStart := startOf_eq_extent hLayout (Listing.get?_of_lt hTarget)
  rw [startOf, Array.getD_eq_getD_getElem?, Array.getElem?_eq_getElem hSlot,
    Option.getD_some] at hStart
  rw [displacement, Array.getElem?_eq_getElem hSlot, stop_eq_extent hLayout hGet]
  dsimp only
  rw [hStart, Listing.way]

/-- A layout fails only for a size that needs more than 32 bits. By induction on the instructions.
-/
theorem exists_extend {before : Layout} (hRoom : before.size
      + (entries.map fun e => e.2.encodedSize (long.getD e.1 false)).sum < 0x100000000) :
    ∃ l, before.extend long entries = .ok l := by
  induction entries generalizing before with
  | nil => exact ⟨before, rfl⟩
  | cons entry rest ih =>
      rw [List.map_cons, List.sum_cons, ← Nat.add_assoc] at hRoom
      obtain ⟨l, hExtend⟩ := @ih ⟨_, _⟩ hRoom
      exact ⟨l, (if_pos (by omega)).trans hExtend⟩

/-- Instructions have a layout if there is room for them. -/
theorem exists_ofListing (hRoom : listing.extent long.branches listing.size < 0x100000000) :
    ∃ l, ofListing listing long = .ok l := by
  rw [LongForms.extent_branches] at hRoom
  exact exists_extend (by simpa using hRoom)

/-- No other layout puts the instructions one behind the other. -/
theorem ofListing_of_places (hPlaces : l.Places long 0 listing.entries)
    (hSlots : l.starts.size = listing.slots.size) (hSize : l.size < 0x100000000) :
    ofListing listing long = .ok l := by
  have hExtent : l.size = listing.extent long.branches listing.size := by
    rw [hPlaces.size_eq, Nat.zero_add, LongForms.extent_branches]
  obtain ⟨other, hLayout⟩ := exists_ofListing (hExtent ▸ hSize)
  have hOther := size_starts_of_ofListing hLayout
  rw [hLayout]
  obtain ⟨starts, size⟩ := l
  obtain ⟨starts', size'⟩ := other
  obtain rfl : size = size' := hExtent.trans (size_eq_extent hLayout).symm
  suffices starts' = starts by rw [this]
  refine Array.ext (hOther.trans hSlots.symm) fun h hSlot hSlot' => ?_
  have hEntry := Listing.entries_idxOf (Listing.get?_of_lt (hOther ▸ hSlot))
  have hStart := ((places_of_ofListing hLayout).startOf_eq hEntry).trans
    (hPlaces.startOf_eq hEntry).symm
  simpa [startOf, Array.getD_eq_getD_getElem?, hSlot, hSlot'] using hStart

end Layout

end IlSplice
