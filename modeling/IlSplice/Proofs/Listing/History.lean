import IlSplice.Proofs.Listing
import IlSplice.Proofs.Outcome

/-! What a sequence of changes makes of a listing. Every handle that was given out stands at one
position of the layout order, among the older ones where they were, and denotes the instruction that
was stored under it last. -/

namespace IlSplice.Listing

/-- A call that changes a listing. -/
inductive Change where
  | push (i : Instruction)
  | insertBefore (anchor : Handle) (new : List Instruction)
  | replace (h : Handle) (new : Instruction)

namespace Change

/-- Makes the change and yields the handles that it gives out. -/
def make : Change → Edit Listing (List Handle)
  | push i => fun l => .ok [l.slots.size] (l.push i)
  | insertBefore anchor new => Listing.insertBefore anchor new
  | replace h new => do
    let _ ← Listing.replace h new
    return []

/-- What a change that gives out the handles stores under which handle. -/
def stores (given : List Handle) : Change → List (Handle × Instruction)
  | push i => given.map fun h => (h, i)
  | insertBefore _ new => given.zip new
  | replace h new => [(h, new)]

end Change

/-- What was given out and stored up to now, in the order of the changes. -/
structure History where
  given : List Handle
  stored : List (Handle × Instruction)

/-- Makes one more change. One that fails gives out and stores nothing. -/
def change (state : History × Listing) (c : Change) : History × Listing :=
  match c.make state.2 with
  | .ok given l => (⟨state.1.given ++ given, state.1.stored ++ c.stores given⟩, l)
  | .error _ l => (state.1, l)

/-- Makes changes one after the other, and goes on behind those that fail. -/
def changeAll (l : Listing) (changes : List Change) : History × Listing :=
  changes.foldl change (⟨[], []⟩, l)

variable {l l' start : Listing} {c : Change} {given : List Handle} {h anchor : Handle}
  {fault : Fault} {new : List Instruction} {history : History}

theorem lookup_singleton (h h' : Handle) (i : Instruction) :
    [(h, i)].lookup h' = if h' = h then some i else none := by
  rw [List.lookup_cons, List.lookup_nil]
  by_cases hSame : h' = h
  · rw [if_pos hSame, hSame, beq_self_eq_true]
  · rw [if_neg hSame, beq_false_of_ne hSame]

/-- Instructions that are stored under handles in a row are found by their distance from the
first. -/
theorem lookup_reverse_zip_range' (n h : Nat) (new : List Instruction) :
    ((List.range' n new.length).zip new).reverse.lookup h
      = if n ≤ h then new[h - n]? else none := by
  induction new generalizing n with
  | nil => simp
  | cons i rest ih =>
      rw [List.length_cons, List.range'_succ, List.zip_cons_cons, List.reverse_cons,
        List.lookup_append, ih, lookup_singleton]
      rcases Nat.lt_trichotomy h n with hLess | rfl | hGreater
      · rw [if_neg (by omega), if_neg (Nat.ne_of_lt hLess), if_neg (by omega)]
        rfl
      · rw [if_neg (by omega), if_pos rfl, if_pos (Nat.le_refl _), Nat.sub_self]
        rfl
      · rw [if_pos (show n + 1 ≤ h from hGreater), if_neg (Nat.ne_of_gt hGreater),
          if_pos (Nat.le_of_lt hGreater), show h - n = h - (n + 1) + 1 by omega,
          List.getElem?_cons_succ]
        exact Option.or_none

/-- A change that fails leaves the listing as it is. -/
theorem Change.eq_of_make_eq_error (hMake : c.make l = .error fault l') : l' = l := by
  cases c with
  | push i => cases hMake
  | insertBefore anchor new =>
      change Listing.insertBefore anchor new l = _ at hMake
      unfold Listing.insertBefore at hMake
      split at hMake
      · cases hMake
        rfl
      · cases hMake
  | replace h new =>
      rcases Edit.bind_eq_error.1 hMake with hReplace | ⟨_, _, _, hPure⟩
      · unfold Listing.replace at hReplace
        split at hReplace
        · cases hReplace
        · cases hReplace
          rfl
      · cases hPure

/-- A change gives out the next handles, keeps the others in their order, and has only stored what
it says. -/
theorem Change.make_eq_ok (hMake : c.make l = .ok given l') :
    List.range l'.slots.size = List.range l.slots.size ++ given ∧ l.order.Sublist l'.order ∧
      ∀ h, l'.get? h = ((c.stores given).reverse.lookup h).or (l.get? h) := by
  cases c with
  | push i =>
      cases hMake
      refine ⟨?_, List.sublist_append_left .., fun h => ?_⟩
      · rw [Listing.push, Array.size_push, List.range_succ]
      · rw [get?, Listing.push, Array.getElem?_push]
        change _ = ([(l.slots.size, i)].lookup h).or _
        rw [lookup_singleton]
        split
        · rfl
        · rfl
  | insertBefore anchor new =>
      obtain ⟨position, -, rfl, hSlots, hOrder⟩ := insertBefore_eq_ok hMake
      refine ⟨?_, ?_, fun h => ?_⟩
      · rw [hSlots, Array.size_append, range_add]
        rfl
      · rw [hOrder, List.append_assoc]
        conv_lhs => rw [← List.take_append_drop position l.order]
        exact .append_left (List.sublist_append_right ..) _
      · rw [Change.stores, lookup_reverse_zip_range', get?, get?, hSlots, Array.getElem?_append]
        split
        · rw [if_neg (by omega)]
          rfl
        · rename_i hNew
          rw [if_pos (Nat.le_of_not_lt hNew), Array.getElem?_eq_none (Nat.le_of_not_lt hNew),
            Option.or_none, List.getElem?_toArray]
  | replace h new =>
      obtain ⟨old, middle, hReplace, hPure⟩ := Edit.bind_eq_ok.1 hMake
      obtain ⟨rfl, rfl⟩ := Edit.pure_eq_ok.1 hPure
      obtain ⟨hSlot, hSlots, hOrder⟩ := replace_eq_ok hReplace
      refine ⟨?_, ?_, fun h' => ?_⟩
      · rw [hSlots, Array.size_setIfInBounds, List.append_nil]
      · rw [hOrder]
      · rw [get?, hSlots, Array.getElem?_setIfInBounds]
        change _ = ([(h, new)].lookup h').or _
        rw [lookup_singleton]
        by_cases hSame : h = h'
        · rw [if_pos hSame, if_pos hSlot, if_pos hSame.symm]
          rfl
        · rw [if_neg hSame, if_neg (Ne.symm hSame)]
          rfl

variable {state : History × Listing}

/-- What changes have made of a listing. -/
structure Follows (start : Listing) (state : History × Listing) : Prop where
  range : List.range state.2.slots.size = List.range start.slots.size ++ state.1.given
  get?_eq : ∀ h, state.2.get? h = (state.1.stored.reverse.lookup h).or (start.get? h)

/-- One change more keeps what a run of changes has kept, also if it fails. -/
theorem Follows.change (hState : Follows start state) (c : Change) :
    Follows start (change state c) := by
  unfold Listing.change
  split
  · rename_i given l hMake
    obtain ⟨hRange, -, hGet⟩ := Change.make_eq_ok hMake
    refine ⟨?_, fun h => ?_⟩
    · rw [hRange, hState.range, List.append_assoc]
    · rw [hGet, hState.get?_eq, List.reverse_append, List.lookup_append, Option.or_assoc]
  · rename_i fault l hMake
    obtain rfl := Change.eq_of_make_eq_error hMake
    exact hState

/-- By induction on the changes, with one step for each. -/
theorem follows_changeAll (l : Listing) (changes : List Change) :
    Follows l (changeAll l changes) :=
  changes.foldlRecOn Listing.change ⟨by simp, by simp⟩ fun _ hState c _ => hState.change c

/-- The handles of a listing stay in their order, whatever is changed later. -/
theorem sublist_foldl_change (state : History × Listing) (changes : List Change) :
    state.2.order.Sublist (changes.foldl change state).2.order := by
  refine changes.foldlRecOn (motive := fun later => state.2.order.Sublist later.2.order) change
    (.refl _) fun later hOrder c _ => hOrder.trans ?_
  unfold change
  split
  · rename_i given l hMake
    exact (Change.make_eq_ok hMake).2.1
  · rename_i fault l hMake
    rw [Change.eq_of_make_eq_error hMake]

/-- The anchor stands behind what was inserted in front of it, and both parts of the order around it
are kept. -/
theorem insertBefore_of_lt (hSlot : anchor < l.slots.size) (new : List Instruction) :
    ∃ front back l', l.order = front ++ anchor :: back ∧
      l.insertBefore anchor new = .ok (List.range' l.slots.size new.length) l' ∧
      l'.order = front ++ List.range' l.slots.size new.length ++ anchor :: back := by
  have hPosition := position?_of_lt hSlot
  obtain ⟨handles, l', hInsert⟩ := insertBefore_of_position? new hPosition
  obtain ⟨position, hFound, rfl, -, hOrder⟩ := insertBefore_eq_ok hInsert
  obtain ⟨hInside, hAnchor⟩ := List.getElem?_eq_some_iff.1 (position?_eq_some.1 hFound)
  have hDrop : l.order.drop position = anchor :: l.order.drop (position + 1) := by
    rw [List.drop_eq_getElem_cons hInside, hAnchor]
  refine ⟨l.order.take position, l.order.drop (position + 1), l', ?_, hInsert, ?_⟩
  · rw [← hDrop, List.take_append_drop]
  · rw [hOrder, hDrop]

/-- The listing has what was given out and stored since it was empty. -/
structure Keeps (l : Listing) (history : History) : Prop where
  /-- The handles were given out from zero on. -/
  given : history.given = List.range l.slots.size
  /-- Each of them stands at one position of the layout order. -/
  order_perm : l.order.Perm history.given
  nodup : l.order.Nodup
  get?_isSome : ∀ h, (l.get? h).isSome ↔ h ∈ history.given
  position?_isSome : ∀ h, (l.position? h).isSome ↔ h ∈ history.given
  map_entries : l.entries.map Prod.fst = l.order
  entries : ∀ k h i, l.entries[k]? = some (h, i) ↔ l.handleAt? k = some h ∧ l.get? h = some i
  /-- A handle denotes what was stored under it last. -/
  get?_eq : ∀ h, l.get? h = history.stored.reverse.lookup h
  handleAt? : ∀ k h, l.handleAt? k = some h ↔ l.position? h = some k
  next? : ∀ h k, l.position? h = some k → l.next? h = l.handleAt? (k + 1)
  insertBefore : ∀ anchor ∈ history.given, ∀ new, ∃ front back l',
    l.order = front ++ anchor :: back ∧
      l.insertBefore anchor new = .ok (List.range' history.given.length new.length) l' ∧
      l'.order = front ++ List.range' history.given.length new.length ++ anchor :: back
  replace : ∀ h ∈ history.given, ∀ new, ∃ old l', l.get? h = some old ∧
    l.replace h new = .ok old l' ∧ l'.order = l.order
  insertBefore_foreign : ∀ anchor ∉ history.given, ∀ new,
    l.insertBefore anchor new = .error (.foreignAnchor anchor) l
  replace_foreign : ∀ h ∉ history.given, ∀ new,
    l.replace h new = .error (.foreignInstruction h) l

/-- A listing that has given out the handles of all its slots. -/
theorem keeps_of_given (hGiven : history.given = List.range l.slots.size)
    (hGet : ∀ h, l.get? h = history.stored.reverse.lookup h) : l.Keeps history := by
  have hMem : ∀ {h}, h ∈ history.given ↔ h < l.slots.size := by
    intro h
    rw [hGiven, List.mem_range]
  have hLength : history.given.length = l.slots.size := by rw [hGiven, List.length_range]
  have hPlaced : ∀ h, (l.position? h).isSome ↔ h ∈ history.given := fun h => by
    rw [hMem, Option.isSome_iff_exists]
    exact ⟨fun ⟨k, hPosition⟩ => mem_order_of_position? hPosition,
      fun hSlot => ⟨_, position?_of_lt hSlot⟩⟩
  exact {
    given := hGiven
    order_perm := hGiven ▸ l.arranged
    nodup := l.nodup_order
    get?_isSome := fun h => by
      rw [hMem]
      simp [get?]
    position?_isSome := hPlaced
    map_entries := l.map_fst_entries
    entries := fun k h i => entries_getElem?_eq_some
    get?_eq := hGet
    handleAt? := fun k h => position?_eq_some.symm
    next? := fun h k hPosition => by
      rw [Listing.next?, hPosition]
      rfl
    insertBefore := fun anchor hIssued new => by
      rw [hLength]
      exact insertBefore_of_lt (hMem.1 hIssued) new
    replace := fun h hIssued new => by
      have hSlot := hMem.1 hIssued
      exact ⟨l.slots[h], _, get?_of_lt hSlot, dif_pos hSlot, rfl⟩
    insertBefore_foreign := fun anchor hForeign new => by
      have hNone : l.position? anchor = none := by
        rwa [← Option.not_isSome_iff_eq_none, hPlaced]
      rw [Listing.insertBefore, hNone]
    replace_foreign := fun h hForeign new => dif_neg fun hSlot => hForeign (hMem.2 hSlot) }

/-- Whatever was changed in a fresh listing, it has exactly the handles that were given out, each
with what was stored under it last, and nothing that is changed later moves them around. -/
theorem keeps_changeAll (changes : List Change) :
    (changeAll empty changes).2.Keeps (changeAll empty changes).1 ∧
      ∀ more, (changeAll empty changes).2.order.Sublist
        (changeAll empty (changes ++ more)).2.order := by
  have hFollows := follows_changeAll empty changes
  refine ⟨keeps_of_given hFollows.range.symm fun h => ?_, fun more => ?_⟩
  · rw [hFollows.get?_eq]
    exact Option.or_none
  · rw [changeAll, changeAll, List.foldl_append]
    exact sublist_foldl_change _ more

end IlSplice.Listing
