import IlSplice.Edit

/-!
The instructions of a method body.

Instructions stay in the slot in which they were first stored, and their handle is the number of
that slot. The layout order is kept beside the slots. Insertions therefore never change what a
handle, and with it a branch target, refers to.
-/

namespace IlSplice

/-- Instructions by handle, and their order in the code. -/
structure Listing where
  slots : Array Instruction
  order : List Handle
  /-- The order lists every handle once. -/
  arranged : order.Perm (List.range slots.size)

namespace Listing

/-- No instructions. -/
def empty : Listing := ⟨#[], [], .refl _⟩

instance : Inhabited Listing := ⟨empty⟩

/-- The given instructions in order, with the handles 0, 1 and so on. -/
def ofArray (instructions : Array Instruction) : Listing :=
  ⟨instructions, List.range instructions.size, .refl _⟩

/-- The number of instructions. -/
def size (l : Listing) : Nat := l.order.length

/-- The instruction with a handle. -/
def get? (l : Listing) (h : Handle) : Option Instruction := l.slots[h]?

/-- The handle at a position in the layout order. -/
def handleAt? (l : Listing) (position : Nat) : Option Handle := l.order[position]?

/-- The position of a handle in the layout order. -/
def position? (l : Listing) (h : Handle) : Option Nat := l.order.idxOf? h

/-- The handle behind the given one in the layout order. -/
def next? (l : Listing) (h : Handle) : Option Handle :=
  (l.position? h).bind fun position => l.order[position + 1]?

/-- Handles and instructions in layout order. -/
def entries (l : Listing) : List (Handle × Instruction) :=
  l.order.filterMap fun h => l.slots[h]?.map (h, ·)

/-- The listing with one more instruction at its end; its handle is the size before. -/
def push (l : Listing) (i : Instruction) : Listing where
  slots := l.slots.push i
  order := l.order ++ [l.slots.size]
  arranged := by
    rw [Array.size_push, List.range_succ]
    exact l.arranged.append_right _

theorem range_add (m n : Nat) : List.range (m + n) = List.range m ++ List.range' m n := by
  simpa [List.range_eq_range'] using (List.range'_append_1 (s := 0) (m := m) (n := n)).symm

/-- Puts instructions in front of `anchor` and yields their handles. -/
def insertBefore (anchor : Handle) (new : List Instruction) : Edit Listing (List Handle) :=
  fun l =>
    match l.position? anchor with
    | none => .error (.foreignAnchor anchor) l
    | some position =>
      let handles := List.range' l.slots.size new.length
      .ok handles
        { slots := l.slots ++ new.toArray
          order := l.order.take position ++ handles ++ l.order.drop position
          arranged := by
            rw [Array.size_append, List.size_toArray, range_add, List.append_assoc]
            refine (List.Perm.append_left _ List.perm_append_comm).trans ?_
            rw [← List.append_assoc, List.take_append_drop]
            exact l.arranged.append_right _ }

/-- Stores another instruction under a handle and yields the one before. -/
def replace (h : Handle) (new : Instruction) : Edit Listing Instruction := fun l =>
  if bound : h < l.slots.size then
    .ok l.slots[h]
      { slots := l.slots.set h new
        order := l.order
        arranged := by rw [Array.size_set]; exact l.arranged }
  else .error (.foreignInstruction h) l

@[simp] theorem size_eq (l : Listing) : l.size = l.slots.size := by
  simpa [size] using l.arranged.length_eq

/-- The handles of a listing are exactly those below the number of its slots. -/
theorem mem_order (l : Listing) {h : Handle} : h ∈ l.order ↔ h < l.slots.size := by
  simpa using l.arranged.mem_iff (a := h)

/-- Every instruction has one position, since the order is a permutation of all handles. -/
theorem nodup_order (l : Listing) : l.order.Nodup :=
  l.arranged.nodup_iff.2 List.nodup_range

end Listing

end IlSplice
