import IlSplice.Proofs.Body.ControlFlow
import IlSplice.Proofs.Patch.Plan

/-! The stores in front of the injection anchor. Nothing refers to them or to the anchor, so that
they run from the first to the anchor, and every handler treats them as it treats the anchor. -/

namespace IlSplice

namespace Listing

variable {l l' : Listing} {position k : Nat} {new : List Instruction} {changed h : Handle}
  {load : Instruction}

/-- An old instruction other than the anchor is on neither side next to the anchor's window. -/
theorem Spliced.outside (hSpliced : l.Spliced l' position new changed load) {anchor : Handle}
    (hAnchor : l.position? anchor = some position) (hOld : l.position? h = some k)
    (hOther : h ≠ anchor) :
    ∃ k', l'.position? h = some k' ∧ (k' < position ∨ position + new.length < k') := by
  have hInside := (List.getElem?_eq_some_iff.1 (position?_eq_some.1 hAnchor)).1
  refine ⟨_, hSpliced.position?_old (Nat.le_of_lt hInside) hOld, ?_⟩
  have hApart : k ≠ position := by
    rintro rfl
    rw [position?_eq_some] at hAnchor hOld
    exact hOther (Option.some.inj (hOld.symm.trans hAnchor))
  split <;> omega

theorem inRange_iff {start : Handle} {stop : Option Handle} (hPosition : l.position? h = some k) :
    l.InRange start stop h ↔ ∃ first, l.position? start = some first ∧ first ≤ k ∧
      ∀ bound ∈ stop, ∃ last, l.position? bound = some last ∧ k < last := by
  constructor
  · rintro ⟨k', first, hSame, hFirst, hLe, hStop⟩
    obtain rfl := Option.some.inj (hPosition.symm.trans hSame)
    exact ⟨first, hFirst, hLe, hStop⟩
  · rintro ⟨first, hFirst, hLe, hStop⟩
    exact ⟨k, first, hPosition, hFirst, hLe, hStop⟩

/-- A range between old instructions other than the anchor has all of the window and the anchor,
or nothing of them. -/
theorem Spliced.inRange_iff (hSpliced : l.Spliced l' position new changed load) {anchor : Handle}
    (hAnchor : l.position? anchor = some position) {start : Handle} {stop : Option Handle}
    (hStart : ∃ k, l.position? start = some k) (hStartOther : start ≠ anchor)
    (hStop : ∀ bound ∈ stop, (∃ k, l.position? bound = some k) ∧ bound ≠ anchor) {j : Nat}
    (hj : j < new.length) :
    l'.InRange start stop (l.slots.size + j) ↔ l'.InRange start stop anchor := by
  have hInside := (List.getElem?_eq_some_iff.1 (position?_eq_some.1 hAnchor)).1
  have hAnchor' := hSpliced.position?_old (Nat.le_of_lt hInside) hAnchor
  rw [if_neg (Nat.lt_irrefl _)] at hAnchor'
  rw [Listing.inRange_iff (hSpliced.position?_new (Nat.le_of_lt hInside) hj),
    Listing.inRange_iff hAnchor']
  obtain ⟨k, hk⟩ := hStart
  obtain ⟨first, hFirst, hFirstOutside⟩ := hSpliced.outside hAnchor hk hStartOther
  have hBounds : ∀ bound ∈ stop, ((∃ last, l'.position? bound = some last ∧ position + j < last) ↔
      ∃ last, l'.position? bound = some last ∧ position + new.length < last) := by
    intro bound hMem
    obtain ⟨⟨k, hk⟩, hOther⟩ := hStop bound hMem
    obtain ⟨last, hLast, hOutside⟩ := hSpliced.outside hAnchor hk hOther
    rw [hLast]
    simp only [Option.some.injEq, exists_eq_left']
    omega
  rw [hFirst]
  simp only [Option.some.injEq, exists_eq_left']
  refine and_congr (by omega) (forall₂_congr hBounds)

end Listing

namespace Patch.Plan

variable {p : Plan} {b b' : MethodBody} {outcome : Outcome} {previous : Int32} {position : Nat}

/-- The handles of the new instructions. -/
def inserted (p : Plan) (b : MethodBody) : List Handle :=
  List.range' b.listing.slots.size (4 * p.entries.length)

/-- The new instructions and the anchor behind them. -/
def window (p : Plan) (b : MethodBody) : List Handle := p.inserted b ++ [p.anchors.injection]

/-- Control goes from each instruction of a store to the next one. -/
theorem fallsThrough_of_mem_storesFrom {index : Nat} {entries : List String} {i : Instruction}
    (hMem : i ∈ storesFrom index entries) : i.opcode.flow.fallsThrough = true := by
  rcases (targets_of_mem_storesFrom hMem).2 with hOpcode | hOpcode | hOpcode | hOpcode
  all_goals
    rw [hOpcode]
    rfl

/-- Nothing refers to a new instruction or to the anchor. -/
theorem Applied.unreferenced_window (hApplied : p.Applied b b' previous position)
    (hClosed : b.Closed) {target : Handle} (hTarget : target ∈ p.window b) :
    b'.Unreferenced target := by
  have hSpliced := hApplied.spliced
  have hAnchor := MethodBody.isReferenced_eq_false.1 hApplied.unreferenced
  -- A reference of the old body leads to an old instruction, and not to the anchor.
  have hOld : ∀ h, (∃ k, b.listing.position? h = some k) → h ≠ p.anchors.injection →
      h ≠ target := by
    rintro h ⟨k, hk⟩ hOther rfl
    rcases List.mem_append.1 hTarget with hNew | hSame
    · have hFresh := (List.mem_range'_1.1 hNew).1
      exact Nat.not_lt.2 hFresh (Listing.mem_order_of_position? hk)
    · exact hOther (List.mem_singleton.1 hSame)
  constructor
  · intro source i hGet hMem
    by_cases hChanged : source = p.anchors.size
    · rw [hChanged, hSpliced.get?_changed] at hGet
      cases hGet
      cases hMem
    by_cases hSlot : source < b.listing.slots.size
    · rw [hSpliced.get?_old hSlot hChanged] at hGet
      refine hOld target (hClosed.targets source i hGet target hMem) ?_ rfl
      rintro rfl
      exact hAnchor.1 source i hGet hMem
    · obtain ⟨j, rfl⟩ := Nat.exists_eq_add_of_le (Nat.le_of_not_lt hSlot)
      rw [hSpliced.get?_new] at hGet
      rw [(targets_of_mem_storesFrom (List.mem_of_getElem? hGet)).1] at hMem
      cases hMem
  · intro handler hMem hBound
    rw [hApplied.handlers_eq] at hMem
    refine hOld target (hClosed.bounds handler hMem target hBound) ?_ rfl
    rintro rfl
    exact hAnchor.2 handler hMem hBound

/-- The window stands where the anchor stood. -/
theorem Applied.order_window (hApplied : p.Applied b b' previous position) {j : Nat} {h : Handle}
    (hWindow : (p.window b)[j]? = some h) : b'.listing.order[position + j]? = some h := by
  have hSpliced := hApplied.spliced
  have hAnchor := Listing.position?_eq_some.1 hApplied.position_eq
  have hInside := Nat.le_of_lt (List.getElem?_eq_some_iff.1 hAnchor).1
  have hLength := length_storesFrom 1 p.entries
  by_cases hj : j < 4 * p.entries.length
  · rw [window, List.getElem?_append_left (by simpa [inserted] using hj), inserted,
      List.getElem?_range' hj, Nat.one_mul] at hWindow
    rw [hSpliced.order_new hInside (by omega), hWindow]
  · have hLast : j = 4 * p.entries.length := by
      have := (List.getElem?_eq_some_iff.1 hWindow).1
      simp only [window, inserted, List.length_append, List.length_range', List.length_singleton]
        at this
      omega
    subst hLast
    rw [window, List.getElem?_append_right (by simp [inserted])] at hWindow
    rw [← hLength, hSpliced.order_behind hInside (Nat.le_refl _), hAnchor]
    simpa [inserted] using hWindow

/-- In front of an instruction of the window there is a new one. -/
theorem inserted_of_window {j : Nat} {before target : Handle}
    (hTarget : (p.window b)[j + 1]? = some target) (hBefore : (p.window b)[j]? = some before) :
    j < 4 * p.entries.length ∧ before = b.listing.slots.size + j := by
  have hj := (List.getElem?_eq_some_iff.1 hTarget).1
  simp only [window, inserted, List.length_append, List.length_range', List.length_singleton] at hj
  refine ⟨by omega, ?_⟩
  rw [window, List.getElem?_append_left (by rw [inserted, List.length_range']; omega), inserted,
    List.getElem?_range' (by omega), Nat.one_mul] at hBefore
  exact (Option.some.inj hBefore).symm

/-- An instruction of the window is reached from the one in front of it only. -/
theorem Applied.successor_iff (hApplied : p.Applied b b' previous position) (hClosed : b.Closed)
    {j : Nat} {before target : Handle} (hBefore : (p.window b)[j]? = some before)
    (hTarget : (p.window b)[j + 1]? = some target) (source : Handle) :
    b'.Successor source target ↔ source = before := by
  have hBefore' := hApplied.order_window hBefore
  have hTarget' := hApplied.order_window hTarget
  rw [(hApplied.unreferenced_window hClosed (List.mem_of_getElem? hTarget)).successor_iff]
  constructor
  · rintro ⟨i, -, -, hNext⟩
    obtain ⟨k, hSource, hBehind⟩ := Listing.next?_eq_some.1 hNext
    have hk : k + 1 = position + (j + 1) := by
      rw [← Listing.position?_eq_some] at hBehind hTarget'
      exact Option.some.inj (hBehind.symm.trans hTarget')
    obtain rfl : k = position + j := by omega
    exact Option.some.inj (hSource.symm.trans hBefore')
  · rintro rfl
    obtain ⟨hj, rfl⟩ := inserted_of_window hTarget hBefore
    have hStore := List.getElem?_eq_getElem (l := storesFrom 1 p.entries)
      (by rwa [length_storesFrom])
    refine ⟨_, (hApplied.spliced.get?_new j).trans hStore, ?_,
      Listing.next?_eq_some.2 ⟨position + j, hBefore', hTarget'⟩⟩
    exact fallsThrough_of_mem_storesFrom (List.getElem_mem _)

/-- A handler treats a new instruction as it treats the anchor. -/
theorem Applied.regions_iff (hApplied : p.Applied b b' previous position) (hClosed : b.Closed)
    {handler : Handler} (hMem : handler ∈ b.handlers) {h : Handle} (hNew : h ∈ p.inserted b) :
    (handler.Protects b'.listing h ↔ handler.Protects b'.listing p.anchors.injection) ∧
      (handler.Covers b'.listing h ↔ handler.Covers b'.listing p.anchors.injection) ∧
      (handler.Filters b'.listing h ↔ handler.Filters b'.listing p.anchors.injection) := by
  have hAnchor := MethodBody.isReferenced_eq_false.1 hApplied.unreferenced
  have hBound : ∀ bound ∈ handler.bounds,
      (∃ k, b.listing.position? bound = some k) ∧ bound ≠ p.anchors.injection := by
    refine fun bound hBound => ⟨hClosed.bounds handler hMem bound hBound, ?_⟩
    rintro rfl
    exact hAnchor.2 handler hMem hBound
  simp only [Handler.mem_bounds] at hBound
  obtain ⟨j, hj, rfl⟩ := List.mem_range'.1 hNew
  rw [Nat.one_mul]
  have hRange : ∀ start stop, (∃ k, b.listing.position? start = some k) ∧
      start ≠ p.anchors.injection →
      (∀ bound ∈ stop, (∃ k, b.listing.position? bound = some k) ∧
        bound ≠ p.anchors.injection) →
      (b'.listing.InRange start stop (b.listing.slots.size + j) ↔
        b'.listing.InRange start stop p.anchors.injection) :=
    fun start stop hStart hStop => hApplied.spliced.inRange_iff hApplied.position_eq hStart.1
      hStart.2 hStop (by rwa [length_storesFrom])
  refine ⟨hRange _ _ (hBound _ (.inl rfl)) fun bound hEnd => hBound _ (.inr (.inr (.inl hEnd))),
    hRange _ _ (hBound _ (.inr (.inl rfl)))
      fun bound hEnd => hBound _ (.inr (.inr (.inr (.inl hEnd)))), ?_⟩
  refine exists_congr fun filter => and_congr_right fun hFilter =>
    hRange _ _ (hBound _ (.inr (.inr (.inr (.inr hFilter))))) fun bound hEnd => ?_
  obtain rfl := Option.some.inj hEnd
  exact hBound _ (.inr (.inl rfl))

/-- What an applied plan puts in front of the injection anchor runs from its first instruction to
the anchor without another way in, and each handler guards it, covers it or filters with it if and
only if it does so with the anchor. -/
theorem apply_single_entry (hClosed : b.Closed) (hEntries : p.entries ≠ [])
    (hApply : p.apply b = .ok outcome b') :
    ∃ position, b.listing.position? p.anchors.injection = some position ∧
      b'.listing.order = b.listing.order.take position ++ p.inserted b
        ++ b.listing.order.drop position ∧
      p.inserted b ≠ [] ∧
      (∀ h ∈ p.window b, b'.Unreferenced h) ∧
      (∀ j before target, (p.window b)[j]? = some before → (p.window b)[j + 1]? = some target →
        ∀ source, b'.Successor source target ↔ source = before) ∧
      ∀ handler ∈ b'.handlers, ∀ h ∈ p.inserted b,
        (handler.Protects b'.listing h ↔ handler.Protects b'.listing p.anchors.injection) ∧
        (handler.Covers b'.listing h ↔ handler.Covers b'.listing p.anchors.injection) ∧
        (handler.Filters b'.listing h ↔ handler.Filters b'.listing p.anchors.injection) := by
  obtain ⟨previous, position, hApplied, -⟩ := applied_of_apply hApply
  refine ⟨position, hApplied.position_eq, ?_, ?_, fun h => hApplied.unreferenced_window hClosed,
    fun j before target => hApplied.successor_iff hClosed, fun handler hMem h hNew => ?_⟩
  · rw [hApplied.spliced.order, length_storesFrom, inserted]
  · have := List.length_pos_iff.2 hEntries
    rw [inserted, Ne, List.range'_eq_nil_iff]
    omega
  · rw [hApplied.handlers_eq] at hMem
    exact hApplied.regions_iff hClosed hMem hNew

/-- A guarded call behind a constant, with a clean-up that ends where the method returns. -/
def guardedCall : MethodBody where
  maxStack := 1
  locals := .null
  initLocals := false
  listing := .ofArray #[.plain .nop, ⟨.ldcI4S, .int8 3⟩, ⟨.call, .method ⟨.null, "m"⟩⟩,
    ⟨.leaveS, .target 5⟩, .plain .endfinally, .plain .ret]
  handlers := [⟨⟨2⟩, 0, some 4, 4, some 5, none, none⟩]

/-- The anchor is in a guarded range. So are the stores, and the only way to the anchor leads
through them. -/
theorem apply_single_entry_guardedCall :
    ∃ outcome b', (Plan.mk ["a"] ⟨2, 1⟩).apply guardedCall = .ok outcome b' ∧
      b'.listing.order = [0, 1, 6, 7, 8, 9, 2, 3, 4, 5] ∧
      (∀ source, b'.Successor source 2 ↔ source = 9) ∧
      ∀ handler ∈ b'.handlers,
        (handler.Protects b'.listing 6 ↔ handler.Protects b'.listing 2) := by
  have hTargets : ∀ i ∈ guardedCall.listing.slots.toList, ∀ target ∈ i.targets, target = 5 := by
    decide
  have hClosed : guardedCall.Closed := by
    refine ⟨fun h i hGet target hTarget => ⟨5, ?_⟩, ?_⟩
    · obtain rfl := hTargets i (Array.mem_toList_iff.2 (Array.mem_of_getElem? hGet)) target hTarget
      rfl
    · have hBounds : ∀ handler ∈ guardedCall.handlers, ∀ bound ∈ handler.bounds,
          (guardedCall.listing.position? bound).isSome := by decide
      exact fun handler hMem bound hBound => Option.isSome_iff_exists.1 (hBounds _ hMem _ hBound)
  have hApply : ∃ outcome b', (Plan.mk ["a"] ⟨2, 1⟩).apply guardedCall = .ok outcome b' :=
    ⟨_, _, rfl⟩
  obtain ⟨outcome, b', hApply⟩ := hApply
  obtain ⟨position, hPosition, hOrder, -, -, hNext, hRegions⟩ :=
    apply_single_entry hClosed (by decide) hApply
  obtain rfl : 2 = position := Option.some.inj hPosition
  exact ⟨outcome, b', hApply, hOrder, hNext 3 9 2 rfl rfl,
    fun handler hMem => (hRegions handler hMem 6 (by decide)).1⟩

end Patch.Plan

end IlSplice
