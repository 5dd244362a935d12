import IlSplice.Heap.LiteralPool
import IlSplice.Proofs.Heap.Literals

/-! The entries of a heap, one behind the other. All of them are found, each at its offset, and the
entries of a heap that goes on are those of both parts. -/

namespace IlSplice.Literals

open Bytes

/-- Entries that stand one behind the other, with their offsets, from one offset up to another. -/
inductive Walks (data : Bytes) : Nat → List (Nat × List UInt16) → Nat → Prop where
  | nil {start : Nat} : Walks data start [] start
  | cons {start middle stop : Nat} {units : List UInt16} {rest : List (Nat × List UInt16)}
      (entry : scanEntry data start = .ok units middle) (later : Walks data middle rest stop) :
      Walks data start ((start, units) :: rest) stop

variable {data other : Bytes} {start middle stop : Nat} {first second : List (Nat × List UInt16)}

/-- Entries of one part go on with those of the next, because a walk ends exactly where an entry may
start. -/
theorem Walks.append (hFirst : Walks data start first middle)
    (hSecond : Walks data middle second stop) : Walks data start (first ++ second) stop := by
  induction hFirst with
  | nil => exact hSecond
  | cons entry _ ih => exact .cons entry (ih hSecond)

theorem Walks.le (hWalks : Walks data start first stop) : start ≤ stop := by
  induction hWalks with
  | nil => exact Nat.le_refl _
  | cons entry _ ih => exact Nat.le_trans (Nat.le_of_lt (lt_of_scanEntry entry)) ih

/-- Entries depend on their own bytes, and so they are found in every heap that goes on with more.
-/
theorem Walks.congr (hWalks : Walks data start first stop) (hAgree : data.Agree other start stop)
    (hSize : stop ≤ other.size) : Walks other start first stop := by
  induction hWalks with
  | nil => exact .nil
  | cons entry later ih =>
      have hLess := lt_of_scanEntry entry
      exact .cons (local_scanEntry.congr entry (hAgree.mono (Nat.le_refl _) later.le)
        (Nat.le_trans later.le hSize)) (ih (hAgree.mono (Nat.le_of_lt hLess) (Nat.le_refl _)) hSize)

/-- What stands in a heap is found by its offset. -/
theorem Walks.getUnits (hWalks : Walks data start first stop) {entry : Nat × List UInt16}
    (hMem : entry ∈ first) : Literals.getUnits ⟨data⟩ entry.1 = .ok entry.2 := by
  induction hWalks with
  | nil => cases hMem
  | @cons start middle stop units rest hScan _ ih =>
      rcases List.mem_cons.1 hMem with rfl | hMem
      · have hLess := lt_of_scanEntry hScan
        obtain ⟨_, _, _, _, hSize, _⟩ := scanEntry_eq_ok hScan
        exact getUnits_eq_ok.2 ⟨Nat.le_of_lt (Nat.lt_of_lt_of_le hLess hSize), middle, hScan⟩
      · exact ih hMem

variable {keep : List UInt16 → Bool} {found all : Array (Nat × List UInt16)} {offset : Nat}

/-- A search that reports no fault has walked up to the end of the heap. Nothing is said about
searches that stop early. -/
theorem walks_of_entriesFrom (hFind : entriesFrom data keep offset found = (all, none))
    (hInside : offset ≤ data.size) : ∃ entries, Walks data offset entries data.size ∧
      all = found ++ (entries.filter fun entry => keep entry.2).toArray := by
  fun_induction entriesFrom data keep offset found with
  | case1 offset found hLess units stop hScan _ ih =>
      obtain ⟨_, _, _, _, hSize, _⟩ := scanEntry_eq_ok hScan
      obtain ⟨entries, hWalks, rfl⟩ := ih hFind hSize
      refine ⟨(offset, units) :: entries, .cons hScan hWalks, ?_⟩
      cases hKeep : keep units <;> simp [hKeep]
  | case2 => cases hFind
  | case3 offset found hEnd =>
      obtain rfl : offset = data.size := by omega
      cases hFind
      exact ⟨[], .nil, by simp⟩

/-- Entries that fill the heap are all found, and those that are not to be kept are left out
afterwards. -/
theorem entriesFrom_of_walks (hWalks : Walks data offset first stop) (hStop : stop = data.size) :
    entriesFrom data keep offset found
      = (found ++ (first.filter fun entry => keep entry.2).toArray, none) := by
  induction hWalks generalizing found with
  | nil =>
      rw [entriesFrom, if_neg (by omega)]
      simp
  | @cons start middle stop units rest hScan later ih =>
      have hLess := lt_of_scanEntry hScan
      have hLe := later.le
      rw [entriesFrom, if_pos (by omega)]
      split
      · rename_i units' stop' hScan'
        rw [hScan] at hScan'
        cases hScan'
        dsimp only
        rw [ih hStop]
        cases hKeep : keep units <;> simp [hKeep]
      · rename_i hScan'
        rw [hScan] at hScan'
        cases hScan'

theorem entries_of_walks (hWalks : Walks data 1 first data.size) :
    entries ⟨data⟩ = (first.toArray, none) := by
  rw [entries, entriesFrom_of_walks hWalks rfl]
  simp

/-- Zeros are entries without a text. -/
theorem walks_zeros (data : Bytes) (count : Nat) :
    Walks (data ++ Array.replicate count 0) data.size
      ((List.range' data.size count).map fun offset => (offset, [])) (data.size + count) := by
  suffices ∀ done left, done + left = count →
      Walks (data ++ Array.replicate count 0) (data.size + done)
        ((List.range' (data.size + done) left).map fun offset => (offset, []))
        (data.size + count) from
    this 0 count (by omega)
  intro done left hCount
  induction left generalizing done with
  | zero =>
      obtain rfl : done = count := hCount
      exact .nil
  | succ left ih =>
      have hZero : (data ++ Array.replicate count 0)[data.size + done]? = some (0 : UInt8) := by
        rw [Array.getElem?_append_right (by omega), Array.getElem?_replicate]
        exact if_pos (by omega)
      have hHolds : Holds (data ++ Array.replicate count 0) (data.size + done) [0] :=
        holds_cons.2 ⟨hZero, holds_nil.2 (by simp; omega)⟩
      have hScan := scanEntry_of_scan (Compressed.scan_of_encode (n := 0) rfl hHolds)
        (by simp; omega)
      rw [List.range'_succ, List.map_cons]
      exact .cons hScan (ih (done + 1) (by omega))

end IlSplice.Literals
