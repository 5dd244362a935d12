import IlSplice.Listing
import Mathlib

/-! Listings seen from their layout order: which handle stands at which position, and with which
instruction. -/

namespace IlSplice.Listing

variable {l : Listing} {h : Handle} {i : Instruction} {k : Nat}

theorem get?_of_lt (hSlot : h < l.slots.size) : l.get? h = some l.slots[h] :=
  Array.getElem?_eq_getElem hSlot

/-- Every handle of the order has its instruction, so that none is left out of the entries. -/
theorem entries_getElem? (l : Listing) (k : Nat) :
    l.entries[k]? = l.order[k]?.bind fun h => (l.get? h).map (h, ·) := by
  have hSlots : ∀ h ∈ l.order, h < l.slots.size := fun h hMem => l.mem_order.1 hMem
  unfold entries
  generalize l.order = order at hSlots
  induction order generalizing k with
  | nil => rfl
  | cons h rest ih =>
      have hGet := Array.getElem?_eq_getElem (hSlots h (by simp))
      rw [List.filterMap_cons_some (by rw [hGet]; rfl)]
      cases k with
      | zero =>
          change some _ = (l.slots[h]?).map (h, ·)
          rw [hGet]
          rfl
      | succ k => exact ih k fun h hMem => hSlots h (by simp [hMem])

/-- An entry is the handle at its position, with the instruction in the slot of the handle. -/
theorem entries_getElem?_eq_some :
    l.entries[k]? = some (h, i) ↔ l.order[k]? = some h ∧ l.get? h = some i := by
  rw [entries_getElem?, Option.bind_eq_some_iff]
  constructor
  · rintro ⟨h', hOrder, hEntry⟩
    obtain ⟨i', hGet, hPair⟩ := Option.map_eq_some_iff.1 hEntry
    cases hPair
    exact ⟨hOrder, hGet⟩
  · rintro ⟨hOrder, hGet⟩
    exact ⟨h, hOrder, Option.map_eq_some_iff.2 ⟨i, hGet, rfl⟩⟩

theorem map_fst_entries (l : Listing) : l.entries.map Prod.fst = l.order := by
  apply List.ext_getElem?
  intro k
  rw [List.getElem?_map, entries_getElem?]
  cases hOrder : l.order[k]? with
  | none => rfl
  | some h =>
      have hSlot := l.mem_order.1 (List.mem_of_getElem? hOrder)
      rw [Option.bind_some, get?_of_lt hSlot]
      rfl

theorem length_entries (l : Listing) : l.entries.length = l.size := by
  rw [size, ← map_fst_entries, List.length_map]

/-- Since no handle is listed twice, the position of a handle is any place where it stands. -/
theorem position?_eq_some : l.position? h = some k ↔ l.order[k]? = some h := by
  unfold position?
  rw [List.idxOf?_eq_some_iff, List.getElem?_eq_some_iff]
  refine exists_congr fun hk => ⟨And.left, fun hGet => ⟨hGet, fun j hj hSame => ?_⟩⟩
  have := l.nodup_order.getElem_inj_iff.1 (hSame.trans hGet.symm)
  omega

/-- Handles are the same exactly if their positions are. -/
theorem eq_iff_position {h' : Handle} {position : Nat} (hPosition : l.position? h = some position)
    (hOrder : l.order[k]? = some h') : h = h' ↔ k = position := by
  rw [← position?_eq_some] at hOrder
  constructor
  · rintro rfl
    exact Option.some.inj (hOrder.symm.trans hPosition)
  · rintro rfl
    rw [position?_eq_some] at hOrder hPosition
    exact Option.some.inj (hPosition.symm.trans hOrder)

theorem position?_of_lt (hSlot : h < l.slots.size) : l.position? h = some (l.order.idxOf h) := by
  have hMem := List.idxOf_lt_length_of_mem (l.mem_order.2 hSlot)
  rw [position?_eq_some, List.getElem?_eq_getElem hMem, List.getElem_idxOf]

theorem entries_idxOf (hGet : l.get? h = some i) : l.entries[l.order.idxOf h]? = some (h, i) :=
  entries_getElem?_eq_some.2
    ⟨position?_eq_some.1 (position?_of_lt (Array.getElem?_eq_some_iff.1 hGet).1), hGet⟩

/-- The entries are the handles with their instructions, without any further ones. -/
theorem mem_entries : (h, i) ∈ l.entries ↔ l.get? h = some i := by
  refine ⟨fun hMem => ?_, fun hGet => List.mem_of_getElem? (entries_idxOf hGet)⟩
  obtain ⟨k, hk⟩ := List.mem_iff_getElem?.1 hMem
  exact (entries_getElem?_eq_some.1 hk).2

theorem mem_order_of_position? (hPosition : l.position? h = some k) : h < l.slots.size :=
  l.mem_order.1 (List.mem_of_getElem? (position?_eq_some.1 hPosition))

/-- The next instruction is the next one in layout order, whatever its handle is. -/
theorem next?_eq_some {next : Handle} : l.next? h = some next ↔
    ∃ k, l.order[k]? = some h ∧ l.order[k + 1]? = some next := by
  rw [next?, Option.bind_eq_some_iff]
  exact exists_congr fun k => and_congr_left fun _ => position?_eq_some

variable {l' : Listing} {anchor : Handle} {new : List Instruction} {handles : List Handle}

/-- New instructions get new slots behind the old ones, while their handles are put in the order
where they are wanted. So no old handle changes its meaning. -/
theorem insertBefore_eq_ok (hInsert : l.insertBefore anchor new = .ok handles l') :
    ∃ position, l.position? anchor = some position ∧
      handles = List.range' l.slots.size new.length ∧ l'.slots = l.slots ++ new.toArray ∧
      l'.order = l.order.take position ++ handles ++ l.order.drop position := by
  unfold insertBefore at hInsert
  split at hInsert
  · cases hInsert
  · rename_i position hPosition
    cases hInsert
    exact ⟨position, hPosition, rfl, rfl, rfl⟩

/-- A slot gets another instruction. The order does not change, and so neither do positions. -/
theorem replace_eq_ok {load : Instruction} (hReplace : l.replace h load = .ok i l') :
    h < l.slots.size ∧ l'.slots = l.slots.setIfInBounds h load ∧ l'.order = l.order := by
  unfold replace at hReplace
  split at hReplace
  · rename_i hSlot
    cases hReplace
    exact ⟨hSlot, (Array.setIfInBounds_def ..).trans (dif_pos hSlot) |>.symm, rfl⟩
  · cases hReplace

theorem insertBefore_of_position? {position : Nat} (new : List Instruction)
    (hPosition : l.position? anchor = some position) :
    ∃ handles l', l.insertBefore anchor new = .ok handles l' := by
  unfold insertBefore
  split
  · rename_i hNone
    rw [hPosition] at hNone
    cases hNone
  · exact ⟨_, _, rfl⟩

theorem replace_of_lt (load : Instruction) (hSlot : h < l.slots.size) :
    ∃ i l', l.replace h load = .ok i l' :=
  ⟨_, _, dif_pos hSlot⟩

/-- The other listing has new instructions at a position, and another instruction in one slot. -/
structure Spliced (l l' : Listing) (position : Nat) (new : List Instruction) (changed : Handle)
    (load : Instruction) : Prop where
  changed_lt : changed < l.slots.size
  slots : l'.slots = l.slots.setIfInBounds changed load ++ new.toArray
  order : l'.order = l.order.take position ++ List.range' l.slots.size new.length
    ++ l.order.drop position

namespace Spliced

variable {position : Nat} {changed : Handle} {load : Instruction}

/-- No slot is ever given up. -/
theorem size_slots (hSpliced : l.Spliced l' position new changed load) :
    l'.slots.size = l.slots.size + new.length := by
  rw [hSpliced.slots, Array.size_append, Array.size_setIfInBounds]
  rfl

theorem get?_changed (hSpliced : l.Spliced l' position new changed load) :
    l'.get? changed = some load := by
  have hSlot := hSpliced.changed_lt
  rw [get?, hSpliced.slots, Array.getElem?_append_left (by simpa using hSlot),
    Array.getElem?_setIfInBounds_self_of_lt hSlot]

theorem get?_old (hSpliced : l.Spliced l' position new changed load) (hSlot : h < l.slots.size)
    (hOther : h ≠ changed) : l'.get? h = l.get? h := by
  rw [get?, hSpliced.slots, Array.getElem?_append_left (by simpa using hSlot),
    Array.getElem?_setIfInBounds_ne hOther.symm, get?]

theorem get?_new (hSpliced : l.Spliced l' position new changed load) (j : Nat) :
    l'.get? (l.slots.size + j) = new[j]? := by
  rw [get?, hSpliced.slots, Array.getElem?_append_right (by simp)]
  simp

theorem order_before (hSpliced : l.Spliced l' position new changed load)
    (hPosition : position ≤ l.order.length) (hk : k < position) : l'.order[k]? = l.order[k]? := by
  rw [hSpliced.order, List.append_assoc, List.getElem?_append_left (by simp; omega),
    List.getElem?_take_of_lt hk]

/-- The new handles stand together at the position where they were inserted. -/
theorem order_new (hSpliced : l.Spliced l' position new changed load)
    (hPosition : position ≤ l.order.length) {j : Nat} (hj : j < new.length) :
    l'.order[position + j]? = some (l.slots.size + j) := by
  have hTake : (l.order.take position).length = position := List.length_take_of_le hPosition
  rw [hSpliced.order, List.append_assoc, List.getElem?_append_right (by omega), hTake,
    Nat.add_sub_cancel_left, List.getElem?_append_left (by simpa using hj),
    List.getElem?_range' hj, Nat.one_mul]

/-- Positions behind the new instructions move by as many as there are. -/
theorem order_behind (hSpliced : l.Spliced l' position new changed load)
    (hPosition : position ≤ l.order.length) (hk : position ≤ k) :
    l'.order[k + new.length]? = l.order[k]? := by
  have hTake : (l.order.take position).length = position := List.length_take_of_le hPosition
  rw [hSpliced.order, List.getElem?_append_right (by simp; omega), List.length_append, hTake,
    List.length_range', List.getElem?_drop]
  congr 1
  omega

/-- The new place of what stood at a position. -/
theorem position?_old (hSpliced : l.Spliced l' position new changed load)
    (hPosition : position ≤ l.order.length) (hOld : l.position? h = some k) :
    l'.position? h = some (if k < position then k else k + new.length) := by
  rw [position?_eq_some] at hOld ⊢
  split
  · rw [hSpliced.order_before hPosition ‹_›, hOld]
  · rw [hSpliced.order_behind hPosition (by omega), hOld]

theorem position?_new (hSpliced : l.Spliced l' position new changed load)
    (hPosition : position ≤ l.order.length) {j : Nat} (hj : j < new.length) :
    l'.position? (l.slots.size + j) = some (position + j) :=
  position?_eq_some.2 (hSpliced.order_new hPosition hj)

end Spliced

end IlSplice.Listing
