import IlSplice.Proofs.Bytes.Window
import IlSplice.Proofs.Outcome

/-! Computing on machine words. Numbers of a program have a fixed number of bits and its data have
an end. An operation that leaves either traps, which no fault reports. A computation that comes
out as a checked result does not trap, so it has used every word and every byte within bounds. -/

namespace IlSplice

/-- How a computation on machine words ends early: with a fault that it reports, or abnormally. -/
inductive Stop where
  | fault (fault : Fault)
  | trap

/-- A computation on machine words. -/
abbrev Machine := Except Stop

namespace Machine

variable {α β : Type}

/-- Ends with a fault. -/
def fail (fault : Fault) : Machine α := .error (.fault fault)

/-- The number as a word of so many bits. -/
def fit (bits n : Nat) : Machine Nat := if n < 2 ^ bits then .ok n else .error .trap

/-- The number as a signed word of so many bits. -/
def fitSigned (bits : Nat) (n : Int) : Machine Int :=
  if -(2 ^ bits : Int) ≤ 2 * n ∧ 2 * n < 2 ^ bits then .ok n else .error .trap

/-- The difference of two words. -/
def sub (m n : Nat) : Machine Nat := if n ≤ m then .ok (m - n) else .error .trap

/-- The quotient of two words. -/
def divide (m n : Nat) : Machine Nat := if n = 0 then .error .trap else .ok (m / n)

/-- The remainder of two words. -/
def modulo (m n : Nat) : Machine Nat := if n = 0 then .error .trap else .ok (m % n)

/-- A word shifted to the left, by less than its bits and without losing any of them. -/
def shiftLeft (bits n distance : Nat) : Machine Nat :=
  if distance < bits then fit bits (n <<< distance) else .error .trap

/-- A word shifted to the right, by less than its bits. -/
def shiftRight (bits n distance : Nat) : Machine Nat :=
  if distance < bits then .ok (n >>> distance) else .error .trap

/-- What stands at an index, where something has to stand. -/
def present : Option α → Machine α
  | some a => .ok a
  | none => .error .trap

/-- Replaces what stands at an index. -/
def store (xs : Array α) (i : Nat) (x : α) : Machine (Array α) :=
  if i < xs.size then .ok (xs.setIfInBounds i x) else .error .trap

/-- The zero bits above the highest one of a word. -/
def leadingZeros (bits n : Nat) : Nat := if n = 0 then bits else bits - (Nat.log2 n + 1)

/-- The sum of two words, if it is a word. -/
def checkedAdd (bits m n : Nat) : Option Nat := if m + n < 2 ^ bits then some (m + n) else none

/-- Where `count` bytes from a position end, if they do so within `size` bytes. -/
def endWithin (size position count : Nat) : Machine Nat :=
  match checkedAdd 64 position count with
  | none => fail .outOfBounds
  | some stop => if size < stop then fail .outOfBounds else .ok stop

/-- The least multiple of the alignment that is not below a word. -/
def alignUp (n alignment : Nat) : Machine Nat := do
  let sum ← fit 64 (n + alignment)
  let last ← sub sum 1
  let low ← modulo last alignment
  sub last low

/-- A checked result as the outcome of a computation. It is never a trap. -/
def ofChecked (result : Except Fault α) : Machine α :=
  match result with
  | .ok a => .ok a
  | .error fault => fail fault

variable {bits m n distance : Nat}

@[simp] theorem ofChecked_ok (a : α) : ofChecked (.ok a) = .ok a := rfl

@[simp] theorem ofChecked_error (fault : Fault) :
    ofChecked (.error fault : Except Fault α) = fail fault := rfl

/-- A computation that comes out as checked reaches no trap, whatever the checks say. -/
theorem ofChecked_ne_trap (result : Except Fault α) : ofChecked result ≠ .error .trap := by
  cases result <;> simp [fail]

/-- A value comes out of a computation exactly if the checks yield it. -/
theorem ofChecked_eq_ok {result : Except Fault α} {a : α} :
    ofChecked result = .ok a ↔ result = .ok a := by
  cases result <;> simp [fail]

@[simp] theorem ok_bind (a : α) (next : α → Machine β) : (.ok a : Machine α) >>= next = next a :=
  rfl

/-- Steps that each come out as checked do so together. -/
theorem bind_ofChecked {result : Except Fault α} {next : α → Machine β} {next' : α → Except Fault β}
    (hNext : ∀ a, result = .ok a → next a = ofChecked (next' a)) :
    ofChecked result >>= next = ofChecked (result >>= next') := by
  cases result with
  | error fault => rfl
  | ok a => exact hNext a rfl

theorem mapM_of_ok {f : α → Machine β} {g : α → β} {xs : List α}
    (hEach : ∀ x ∈ xs, f x = .ok (g x)) : xs.mapM f = .ok (xs.map g) := by
  rw [Except.mapM_eq_ok, List.forall₂_map_right_iff, List.forall₂_same]
  exact hEach

/-- By induction on the list: computations that come out as checked do so one after the other. -/
theorem mapM_ofChecked {f : α → Machine β} {g : α → Except Fault β}
    (hEach : ∀ x, f x = ofChecked (g x)) (xs : List α) :
    xs.mapM f = ofChecked (xs.mapM g) := by
  induction xs with
  | nil => rfl
  | cons x xs ih =>
      rw [List.mapM_cons, List.mapM_cons, hEach, ih]
      exact bind_ofChecked fun _ _ => bind_ofChecked fun _ _ => rfl

@[simp] theorem present_some (a : α) : present (some a) = .ok a := rfl

/-- A number in range is a word. This and the next ones say under which conditions an operation does
not trap. -/
theorem fit_of_lt (h : n < 2 ^ bits) : fit bits n = .ok n := if_pos h

theorem fitSigned_of_le {n : Int} (hLow : -(2 ^ bits : Int) ≤ 2 * n) (hHigh : 2 * n < 2 ^ bits) :
    fitSigned bits n = .ok n := if_pos ⟨hLow, hHigh⟩

theorem sub_of_le (h : n ≤ m) : sub m n = .ok (m - n) := if_pos h

theorem divide_of_pos (h : 0 < n) : divide m n = .ok (m / n) := if_neg (by omega)

theorem modulo_of_pos (h : 0 < n) : modulo m n = .ok (m % n) := if_neg (by omega)

theorem shiftLeft_of_lt (hDistance : distance < bits) (h : n <<< distance < 2 ^ bits) :
    shiftLeft bits n distance = .ok (n <<< distance) := by
  rw [shiftLeft, if_pos hDistance, fit_of_lt h]

theorem shiftRight_of_lt (hDistance : distance < bits) :
    shiftRight bits n distance = .ok (n >>> distance) := if_pos hDistance

theorem store_of_lt {xs : Array α} {i : Nat} {x : α} (h : i < xs.size) :
    store xs i x = .ok (xs.setIfInBounds i x) := if_pos h

/-- A field of zeros is filled from the front. -/
theorem store_front {found : Array α} {zero x : α} {count : Nat} :
    store (found ++ Array.replicate (count + 1) zero) found.size x
      = .ok (found.push x ++ Array.replicate count zero) := by
  rw [store_of_lt (by simp)]
  congr 1
  apply Array.ext_getElem?
  intro i
  rw [Array.getElem?_setIfInBounds]
  rcases Nat.lt_trichotomy i found.size with h | h | h
  · rw [if_neg (by omega), Array.getElem?_append_left h,
      Array.getElem?_append_left (by simp; omega), Array.getElem?_push_lt h,
      Array.getElem?_eq_getElem h]
  · subst h
    rw [if_pos rfl, if_pos (by simp), Array.getElem?_append_left (by simp),
      Array.getElem?_push_size]
  · rw [if_neg (by omega), Array.getElem?_append_right (by omega),
      Array.getElem?_append_right (by simp; omega), Array.getElem?_replicate,
      Array.getElem?_replicate, Array.size_push]
    split_ifs <;> first | rfl | omega

/-- The end of a part is compared with the data only if it is a word. If it is none it is behind the
data anyway. -/
theorem endWithin_eq {size : Nat} (hSize : size < 2 ^ 63) (position count : Nat) :
    endWithin size position count =
      if position + count ≤ size then .ok (position + count) else fail .outOfBounds := by
  unfold endWithin checkedAdd
  split_ifs with hWord hInside hInside
  · exact if_neg (Nat.not_lt.2 hInside)
  · exact if_pos (Nat.lt_of_not_le hInside)
  · omega
  · rfl

/-- The three steps of the computation give the next multiple, if there is room for it. -/
theorem alignUp_eq {alignment : Nat} (hAlignment : 0 < alignment) (h : n + alignment < 2 ^ 64) :
    alignUp n alignment = .ok (IlSplice.alignUp n alignment) := by
  have hDivMod := Nat.div_add_mod (n + alignment - 1) alignment
  have hMod := Nat.mod_le (n + alignment - 1) alignment
  rw [alignUp, fit_of_lt h, ok_bind, sub_of_le (by omega), ok_bind, modulo_of_pos hAlignment,
    ok_bind, sub_of_le hMod, IlSplice.alignUp, Nat.mul_comm]
  congr 1
  omega

end Machine

/-- Data in the memory of a 64-bit machine, which holds no more than half of what can be
addressed. -/
structure Slice where
  bytes : Bytes
  size_lt : bytes.size < 2 ^ 63

namespace Slice

open Machine

variable {s : Slice} {start stop width offset : Nat}

/-- The bytes from `start` up to `stop`, which have to be there. -/
def part (s : Slice) (start stop : Nat) : Machine Slice :=
  if start ≤ stop ∧ stop ≤ s.bytes.size then
    .ok ⟨s.bytes.extract start stop, by have := s.size_lt; rw [Array.size_extract]; omega⟩
  else .error .trap

/-- The bytes from `start` on. -/
def drop (s : Slice) (start : Nat) : Machine Slice := s.part start s.bytes.size

/-- Reads a number of `width` bytes at an offset, and where it ends. -/
def numberAt (s : Slice) (width offset : Nat) : Machine (Nat × Nat) := do
  let stop ← endWithin s.bytes.size offset width
  let field ← s.part offset stop
  return (leValue field.bytes.toList, stop)

/-- Reads a number of `width` bytes at the start. -/
def number (s : Slice) (width : Nat) : Machine Nat := do
  let (value, _) ← s.numberAt width 0
  return value

/-- Reads a number of `width` bytes at the start of the bytes from `start` on. -/
def numberFrom (s : Slice) (width start : Nat) : Machine Nat := do
  let rest ← s.drop start
  rest.number width

theorem part_of_le (hStart : start ≤ stop) (hStop : stop ≤ s.bytes.size) :
    ∃ t : Slice, s.part start stop = .ok t ∧ t.bytes = s.bytes.extract start stop :=
  ⟨_, if_pos ⟨hStart, hStop⟩, rfl⟩

theorem drop_of_le (h : start ≤ s.bytes.size) :
    ∃ t : Slice, s.drop start = .ok t ∧ t.bytes = s.bytes.extract start s.bytes.size ∧
      t.bytes.size = s.bytes.size - start := by
  obtain ⟨t, hPart, hBytes⟩ := part_of_le h (Nat.le_refl _)
  refine ⟨t, hPart, hBytes, ?_⟩
  rw [hBytes, Array.size_extract, Nat.min_self]

/-- A number at a place that may be anything is a fault or a value. -/
theorem numberAt_eq (s : Slice) (width offset : Nat) : s.numberAt width offset =
    if offset + width ≤ s.bytes.size then .ok (s.bytes.uintAt offset width, offset + width)
    else fail .outOfBounds := by
  rw [numberAt, endWithin_eq s.size_lt]
  split
  · rename_i hInside
    have hHolds := Bytes.holds_extract (Nat.le_add_right offset width) hInside
    obtain ⟨field, hPart, hBytes⟩ := part_of_le (Nat.le_add_right offset width) hInside
    have hValue := hHolds.uintAt
    rw [Array.length_toList, Array.size_extract, Nat.min_eq_left hInside, Nat.add_sub_cancel_left]
      at hValue
    rw [ok_bind, hPart, hValue, ← hBytes]
    rfl
  · rfl

theorem numberAt_of_le (h : offset + width ≤ s.bytes.size) :
    s.numberAt width offset = .ok (s.bytes.uintAt offset width, offset + width) := by
  rw [numberAt_eq, if_pos h]

theorem number_of_le (h : width ≤ s.bytes.size) :
    s.number width = .ok (s.bytes.uintAt 0 width) := by
  rw [number, numberAt_of_le (by omega)]
  rfl

theorem numberFrom_of_le (h : start + width ≤ s.bytes.size) :
    s.numberFrom width start = .ok (s.bytes.uintAt start width) := by
  obtain ⟨rest, hDrop, hBytes, hSize⟩ := drop_of_le (show start ≤ s.bytes.size by omega)
  rw [numberFrom, hDrop, ok_bind, number_of_le (by omega), hBytes, Bytes.uintAt_extract (by omega),
    Nat.add_zero]

-- Behind the data a checked read reports a fault, and an unchecked one traps.
example : (⟨#[7], by decide⟩ : Slice).numberAt 1 2 = fail .outOfBounds ∧
    (⟨#[7], by decide⟩ : Slice).numberFrom 1 2 = .error .trap := ⟨rfl, rfl⟩

end Slice

end IlSplice
