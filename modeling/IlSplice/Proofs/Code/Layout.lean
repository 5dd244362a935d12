import IlSplice.Proofs.Code.Operand
import IlSplice.Proofs.Listing

/-! Layouts. A computed layout puts the instructions one behind the other without gaps, and the
layout that code is put together from is the one of the long forms that were settled on. -/

namespace IlSplice

namespace Layout

/-- The instructions stand one behind the other from `start` up to the end of the code. -/
def Places (l : Layout) (long : LongForms) (start : Nat) : List (Handle × Instruction) → Prop
  | [] => l.size = start
  | (h, i) :: rest =>
      l.startOf h = start ∧ l.Places long (start + i.encodedSize (long.getD h false)) rest

variable {l before : Layout} {long : LongForms} {entries : List (Handle × Instruction)}

/-- Each instruction is put at the end of the layout, if the end stays within 32 bits. -/
theorem extend_cons_eq_ok {h : Handle} {i : Instruction}
    (hExtend : before.extend long ((h, i) :: entries) = .ok l) :
    before.size + i.encodedSize (long.getD h false) < 0x100000000 ∧
      (Layout.mk (before.starts.setIfInBounds h before.size)
        (before.size + i.encodedSize (long.getD h false))).extend long entries = .ok l := by
  rw [extend] at hExtend
  split at hExtend
  · exact ⟨‹_›, hExtend⟩
  · cases hExtend

theorem size_starts_of_extend (hExtend : before.extend long entries = .ok l) :
    l.starts.size = before.starts.size := by
  induction entries generalizing before with
  | nil =>
      cases hExtend
      rfl
  | cons entry rest ih =>
      rw [ih (extend_cons_eq_ok hExtend).2, Array.size_setIfInBounds]

/-- Laying out more instructions leaves those that are laid out where they are. -/
theorem startOf_of_extend {h : Handle} (hExtend : before.extend long entries = .ok l)
    (hNew : h ∉ entries.map Prod.fst) : l.startOf h = before.startOf h := by
  induction entries generalizing before with
  | nil =>
      cases hExtend
      rfl
  | cons entry rest ih =>
      rw [List.map_cons, List.mem_cons, not_or] at hNew
      rw [ih (extend_cons_eq_ok hExtend).2 hNew.2, startOf, startOf, Array.getD_eq_getD_getElem?,
        Array.getElem?_setIfInBounds_ne (Ne.symm hNew.1), Array.getD_eq_getD_getElem?]

/-- By induction on the instructions. No start is overwritten later, since every handle comes once.
-/
theorem places_of_extend (hExtend : before.extend long entries = .ok l)
    (hOnce : (entries.map Prod.fst).Nodup)
    (hSlots : ∀ entry ∈ entries, entry.1 < before.starts.size) :
    l.Places long before.size entries := by
  induction entries generalizing before with
  | nil =>
      cases hExtend
      rfl
  | cons entry rest ih =>
      obtain ⟨h, i⟩ := entry
      rw [List.map_cons, List.nodup_cons] at hOnce
      have hRest := (extend_cons_eq_ok hExtend).2
      have hSlot : h < before.starts.size := hSlots (h, i) (by simp)
      refine ⟨?_, ih hRest hOnce.2 fun entry hMem => ?_⟩
      · rw [startOf_of_extend hRest hOnce.1, startOf, Array.getD_eq_getD_getElem?,
          Array.getElem?_setIfInBounds_self_of_lt hSlot, Option.getD_some]
      · rw [Array.size_setIfInBounds]
        exact hSlots entry (by simp [hMem])

variable {listing : Listing}

/-- Every instruction has a start, and nothing else has. -/
theorem size_starts_of_ofListing (hLayout : ofListing listing long = .ok l) :
    l.starts.size = listing.slots.size := by
  rw [size_starts_of_extend hLayout, Array.size_replicate]

theorem places_of_ofListing (hLayout : ofListing listing long = .ok l) :
    l.Places long 0 listing.entries := by
  refine places_of_extend hLayout ?_ fun entry hMem => ?_
  · rw [listing.map_fst_entries]
    exact listing.nodup_order
  · rw [Array.size_replicate, ← listing.mem_order, ← listing.map_fst_entries]
    exact List.mem_map_of_mem hMem

end Layout

namespace LongForms

variable {listing : Listing} {long settled : LongForms} {l : Layout}
  {entries : List (Handle × Instruction)} {found far : List Handle} {h : Handle}

/-- The layout that is settled on is that of the long forms beside it, in which no short branch is
left that does not reach its target. -/
theorem settle_eq_ok (hSettle : settle listing long = .ok (l, settled)) :
    Layout.ofListing listing settled = .ok l ∧
      settled.outOfReach l listing.entries [] = .ok [] := by
  fun_induction settle listing long with
  | case1 => cases hSettle
  | case2 => cases hSettle
  | case3 long layout hLayout hReach =>
      cases hSettle
      exact ⟨hLayout, hReach⟩
  | case4 _ _ _ _ _ _ _ ih => exact ih hSettle

/-- The rounds are over once every short branch reaches its target. -/
theorem settle_of_reach (hLayout : Layout.ofListing listing long = .ok l)
    (hReach : long.outOfReach l listing.entries [] = .ok []) :
    settle listing long = .ok (l, long) := by
  fun_cases settle listing long with
  | case1 fault hFault =>
      rw [hLayout] at hFault
      cases hFault
  | case2 _ hSame fault hFault =>
      rw [hLayout] at hSame
      cases hSame
      rw [hReach] at hFault
      cases hFault
  | case3 _ hSame _ =>
      rw [hLayout] at hSame
      cases hSame
      rfl
  | case4 _ hSame _ _ hFar _ =>
      rw [hLayout] at hSame
      cases hSame
      rw [hReach] at hFar
      cases hFar

/-- Long forms are given to short branches of the listing only. -/
def OfShort (long : LongForms) (listing : Listing) : Prop :=
  ∀ h, long.getD h false = true → ∃ i ∈ listing.get? h, i.shortTarget?.isSome

/-- A short branch that does not reach its target. -/
def IsFar (long : LongForms) (l : Layout) (entry : Handle × Instruction) : Prop :=
  ∃ target n, entry.2.shortTarget? = some target ∧ long[entry.1]? = some false ∧
    l.displacement target (l.stop long entry.1 entry.2) = .ok n ∧ fitsByte n = false

/-- One round finds all short branches that do not reach their target. By induction along the
recursion of the search. -/
theorem mem_outOfReach (hReach : outOfReach long l entries found = .ok far) :
    h ∈ far ↔ h ∈ found ∨ ∃ i, (h, i) ∈ entries ∧ long.IsFar l (h, i) := by
  fun_induction outOfReach long l entries found with
  | case1 =>
      cases hReach
      simp
  | case2 => cases hReach
  | case3 first i rest found target hShort hTarget n hn ih =>
      have hHead : long.IsFar l (first, i) ↔ fitsByte n = false := by
        constructor
        · rintro ⟨_, _, hTarget', _, hn', hFar⟩
          rw [hTarget] at hTarget'
          cases hTarget'
          rw [hn] at hn'
          cases hn'
          exact hFar
        · intro hFar
          exact ⟨target, n, hTarget, hShort, hn, hFar⟩
      rw [ih hReach]
      cases hFits : fitsByte n <;> grind
  | case4 first i rest found hOther ih =>
      have hHead : ¬ long.IsFar l (first, i) := by
        rintro ⟨target, _, hTarget, hShort, _⟩
        exact hOther target hTarget hShort
      rw [ih hReach]
      grind

/-- A branch out of reach is a short branch of the listing that was in its short form. -/
theorem far_of_outOfReach (hReach : long.outOfReach l listing.entries [] = .ok far)
    (hFar : h ∈ far) : ∃ i, listing.get? h = some i ∧ long.IsFar l (h, i) := by
  rcases (mem_outOfReach hReach).1 hFar with hNone | ⟨i, hEntry, hIsFar⟩
  · cases hNone
  · exact ⟨i, Listing.mem_entries.1 hEntry, hIsFar⟩

/-- A round gives long forms only to the branches that it found. -/
theorem getD_add {h : Handle} (hLong : (long.add far).getD h false = true) :
    h ∈ far ∨ long.getD h false = true := by
  induction far generalizing long with
  | nil => exact .inr hLong
  | cons first rest ih =>
      rcases ih hLong with hMem | hSet
      · exact .inl (List.mem_cons_of_mem _ hMem)
      · by_cases hSame : first = h
        · exact .inl (by simp [hSame])
        · rw [Array.getD_eq_getD_getElem?, Array.getElem?_setIfInBounds_ne hSame] at hSet
          exact .inr (by rwa [Array.getD_eq_getD_getElem?])

/-- By induction on the rounds: all branches that get a long form are short ones of the listing. -/
theorem ofShort_of_settle (hSettle : settle listing long = .ok (l, settled))
    (hLong : long.OfShort listing) : settled.OfShort listing := by
  fun_induction settle listing long with
  | case1 => cases hSettle
  | case2 => cases hSettle
  | case3 =>
      cases hSettle
      exact hLong
  | case4 long layout _ first more hReach _ ih =>
      refine ih hSettle fun h hSet => ?_
      rcases getD_add hSet with hMem | hSet
      · obtain ⟨i, hGet, target, _, hTarget, _⟩ := far_of_outOfReach hReach hMem
        exact ⟨i, hGet, by rw [hTarget]; rfl⟩
      · exact hLong h hSet

theorem getD_none (listing : Listing) (h : Handle) : (none listing).getD h false = false := by
  rw [none, Array.getD_eq_getD_getElem?, Array.getElem?_replicate]
  split <;> rfl

theorem ofShort_none (listing : Listing) : (none listing).OfShort listing := by
  intro h hSet
  rw [getD_none] at hSet
  cases hSet

end LongForms

end IlSplice
