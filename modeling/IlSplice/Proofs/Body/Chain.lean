import IlSplice.Proofs.Body.Locality

/-! The chain of sections behind a method's code. A walk reads exactly the chains whose sections end
in the data, and from each section only clauses that stand between its head and its end. So the
walk gets to an end, and what it collects has room in the data. -/

namespace IlSplice.Clause

/-- A section of a chain, from its first byte to the end that it announces. -/
structure Link where
  start : Nat
  stop : Nat
  fat : Bool
  /-- Another section follows. -/
  more : Bool
  clauses : List Clause

/-- Where the clause with an index starts. -/
def Link.clauseAt (k : Link) (i : Nat) : Nat := k.start + 4 + i * Clause.size k.fat

/-- The data has the section, and its clauses one behind the other between its head and its end.
What they leave of the section is not looked at. -/
structure Link.StandsIn (k : Link) (data : Bytes) : Prop where
  lead : ∃ lead, data[k.start]? = some lead ∧ (SectionFlags.ofByte lead).exceptions = true ∧
    (SectionFlags.ofByte lead).fat = k.fat ∧ (SectionFlags.ofByte lead).more = k.more
  size : k.stop = k.start + data.uintAt (k.start + 1) (if k.fat then 3 else 1)
  head : k.start + 4 ≤ k.stop
  inside : k.stop ≤ data.size
  count : k.clauses.length = (k.stop - (k.start + 4)) / Clause.size k.fat
  clause : ∀ i c, k.clauses[i]? = some c →
    scan k.fat data (k.clauseAt i) = .ok c (k.clauseAt (i + 1)) ∧ k.clauseAt (i + 1) ≤ k.stop

/-- Sections one behind the other, from one position up to another. Each of them starts at the next
multiple of four bytes from the origin. -/
inductive Chain (origin : Nat) (data : Bytes) : Nat → List Link → Nat → Prop where
  | nil {start : Nat} : Chain origin data start [] start
  | cons {start stop : Nat} {k : Link} {rest : List Link}
      (aligned : k.start = origin + alignUp (start - origin) 4) (stands : k.StandsIn data)
      (later : Chain origin data k.stop rest stop) : Chain origin data start (k :: rest) stop

variable {data : Bytes} {origin start stop : Nat} {more : Bool} {fault : Fault}
  {clauses found : List Clause} {k : Link} {links : List Link}

/-- The clauses of a section end inside it, and bytes that are not enough for another one are left
over. -/
theorem Link.clauseAt_le_stop {i : Nat}
    (hCount : k.clauses.length = (k.stop - (k.start + 4)) / Clause.size k.fat)
    (hHead : k.start + 4 ≤ k.stop) (hi : i ≤ k.clauses.length) : k.clauseAt i ≤ k.stop := by
  have hRoom : i * Clause.size k.fat ≤ k.stop - (k.start + 4) :=
    calc i * Clause.size k.fat ≤ k.clauses.length * Clause.size k.fat := Nat.mul_le_mul_right _ hi
      _ ≤ k.stop - (k.start + 4) := by
        rw [hCount]
        exact Nat.div_mul_le_self _ _
  unfold Link.clauseAt
  omega

/-- The head and the clauses of a section have room between its start and its end. -/
theorem Link.StandsIn.room (hStands : k.StandsIn data) :
    4 + 12 * k.clauses.length ≤ k.stop - k.start := by
  have hLast := Link.clauseAt_le_stop hStands.count hStands.head (Nat.le_refl _)
  have hSize : 12 ≤ Clause.size k.fat := by cases k.fat <;> decide
  have hClauses := Nat.mul_le_mul_left k.clauses.length hSize
  unfold Link.clauseAt at hLast
  omega

/-- A round of the walk reads exactly the sections that stand at the next multiple of four. -/
theorem scanSection_eq_ok_iff (hStart : origin ≤ start) :
    scanSection origin data start = .ok (clauses, more) stop ↔ ∃ fat,
      Link.StandsIn ⟨origin + alignUp (start - origin) 4, stop, fat, more, clauses⟩ data := by
  constructor
  · intro hScan
    obtain ⟨aligned, lead, behind, size, first, last, hAlign, hLead, hKind, rfl, hLength, hLarge,
      hTimes, rfl, hStop⟩ := scanSection_eq_ok hScan
    rw [← ((Scan.align_eq_ok hStart).1 hAlign).1]
    obtain ⟨hLeadByte, rfl⟩ := Scan.u8_eq_ok.1 hLead
    obtain ⟨hSize, rfl, -⟩ := scanSectionSize_eq_ok.1 hLength
    obtain ⟨hCount, rfl, hEach⟩ := (moves_scan _).times_eq_ok.1 hTimes
    rw [← Nat.add_sub_add_left aligned] at hCount
    have hHead : aligned + 4 ≤ aligned + size := Nat.add_le_add_left hLarge _
    refine ⟨(SectionFlags.ofByte lead).fat, ⟨lead, hLeadByte, hKind, rfl, rfl⟩, congrArg _ hSize,
      hHead, hStop, hCount, fun i c hClause => ⟨hEach i c hClause, ?_⟩⟩
    exact Link.clauseAt_le_stop hCount hHead (List.getElem?_eq_some_iff.1 hClause).1
  · generalize hAligned : origin + alignUp (start - origin) 4 = aligned
    rintro ⟨fat, ⟨lead, hLead, hKind, rfl, rfl⟩, hSize, hHead, hInside, hCount, hEach⟩
    change stop = aligned + data.uintAt (aligned + 1) (if (SectionFlags.ofByte lead).fat then 3
      else 1) at hSize
    dsimp only at hHead hInside hCount hLead
    subst hSize
    rw [Nat.add_sub_add_left] at hCount
    have hTimes := (moves_scan (SectionFlags.ofByte lead).fat).times_eq_ok.2
      ⟨hCount, rfl, fun i c hClause => (hEach i c hClause).1⟩
    rw [scanSection,
      Scan.bind_of_ok ((Scan.align_eq_ok hStart).2 ⟨hAligned.symm, by omega⟩),
      Scan.bind_of_ok (show Scan.position data _ = .ok _ _ from rfl),
      Scan.bind_of_ok (Scan.u8_eq_ok.2 ⟨hLead, rfl⟩), hKind, if_neg (by decide),
      Scan.bind_of_ok (scanSectionSize_eq_ok.2 ⟨rfl, rfl, by omega⟩), if_neg (by omega)]
    rw [Scan.bind_of_ok hTimes,
      Scan.bind_of_ok (show Scan.seek _ data _ = .ok () _ from if_pos hInside)]
    rfl

namespace Chain

/-- A section starts where the one before it ends or behind it, and ends in front of the one behind
it. -/
theorem bounds (hChain : Chain origin data start links stop) :
    start ≤ stop ∧ ∀ k ∈ links, start ≤ k.start ∧ k.start < k.stop ∧ k.stop ≤ stop := by
  induction hChain with
  | nil => exact ⟨Nat.le_refl _, by simp⟩
  | @cons start stop k rest hAligned hStands _ ih =>
      obtain ⟨hLe, hRest⟩ := ih
      have hHead := hStands.head
      have hStart := le_alignUp (start - origin) (show 0 < 4 by decide)
      refine ⟨by omega, List.forall_mem_cons.2 ⟨by omega, fun k' hMem => ?_⟩⟩
      have := hRest k' hMem
      omega

/-- By induction on the chain. Sections are not empty, because each has a head. -/
theorem increasing (hChain : Chain origin data start links stop) :
    links.Pairwise fun j k => j.start < k.start ∧ j.stop < k.stop ∧ j.stop ≤ k.start := by
  induction hChain with
  | nil => exact .nil
  | @cons _ _ k _ _ hStands later ih =>
      have hHead := hStands.head
      refine List.pairwise_cons.2 ⟨fun k' hMem => ?_, ih⟩
      have := later.bounds.2 k' hMem
      omega

/-- The heads of the sections and their clauses have room in what the chain moves over. -/
theorem room (hChain : Chain origin data start links stop) :
    4 * links.length + 12 * (links.flatMap Link.clauses).length ≤ stop - start := by
  induction hChain with
  | nil => simp
  | @cons start stop k rest hAligned hStands later ih =>
      have hRoom := hStands.room
      have hLe := later.bounds.1
      have hStart := le_alignUp (start - origin) (show 0 < 4 by decide)
      rw [List.length_cons, List.flatMap_cons, List.length_append]
      omega

/-- A chain ends in the data, unless it has no sections. -/
theorem inside (hChain : Chain origin data start links stop) :
    stop ≤ data.size ∨ links = [] ∧ stop = start := by
  induction hChain with
  | nil => exact .inr ⟨rfl, rfl⟩
  | cons _ hStands _ ih =>
      rcases ih with hInside | ⟨-, rfl⟩
      · exact .inl hInside
      · exact .inl hStands.inside

/-- What a chain takes is bounded by the data, and so is the number of clauses that are read. -/
theorem room_data (hChain : Chain origin data start links stop) :
    4 * links.length + 12 * (links.flatMap Link.clauses).length ≤ data.size - start := by
  have hRoom := hChain.room
  rcases hChain.inside with hInside | ⟨rfl, -⟩
  · omega
  · simp

/-- A chain goes on with a section at the next multiple of four behind its end. -/
theorem append_last (hChain : Chain origin data start links stop)
    (hAligned : k.start = origin + alignUp (stop - origin) 4) (hStands : k.StandsIn data) :
    Chain origin data start (links ++ [k]) k.stop := by
  induction hChain with
  | nil => exact .cons hAligned hStands .nil
  | cons hFirst hHead _ ih => exact .cons hFirst hHead (ih hAligned)

/-- The walk goes on behind every chain of sections that announce another one. -/
theorem walk (hChain : Chain origin data start links stop) (hStart : origin ≤ start)
    (hMore : ∀ k ∈ links, k.more = true) : scanSections origin found data start
      = scanSections origin (found ++ links.flatMap Link.clauses) data stop := by
  induction hChain generalizing found with
  | nil => simp
  | @cons start stop k rest hAligned hStands later ih =>
      obtain ⟨hFirst, hRest⟩ := List.forall_mem_cons.1 hMore
      have hScan : scanSection origin data start = .ok (k.clauses, true) k.stop := by
        refine (scanSection_eq_ok_iff hStart).2 ⟨k.fat, ?_⟩
        rwa [← hAligned, ← hFirst]
      have hBehind := (Chain.cons hAligned hStands later).bounds.2 k (List.mem_cons_self ..)
      rw [scanSections_of_more hScan, ih (by omega) hRest, List.flatMap_cons, List.append_assoc]

end Chain

/-- From every position the data has the sections that announce another one, as far as they go. -/
theorem exists_chain (data : Bytes) (hStart : origin ≤ start) : ∃ links stop,
    Chain origin data start links stop ∧ (∀ k ∈ links, k.more = true) ∧
      ∀ clauses next, scanSection origin data stop ≠ .ok (clauses, true) next := by
  -- What is left of the data gets less with every section.
  induction hLeft : data.size - start using Nat.strong_induction_on generalizing start with
  | _ left ih =>
      by_cases hMore : ∃ clauses next, scanSection origin data start = .ok (clauses, true) next
      · obtain ⟨clauses, next, hScan⟩ := hMore
        obtain ⟨hLess, hInside⟩ := bounds_of_scanSection hScan
        obtain ⟨fat, hStands⟩ := (scanSection_eq_ok_iff hStart).1 hScan
        obtain ⟨links, stop, hChain, hAll, hEnd⟩ := ih (data.size - next) (by omega) (by omega) rfl
        exact ⟨_, stop, .cons rfl hStands hChain, List.forall_mem_cons.2 ⟨rfl, hAll⟩, hEnd⟩
      · exact ⟨[], start, .nil, by simp, fun clauses next hScan => hMore ⟨clauses, next, hScan⟩⟩

theorem ofSections_eq : ofSections data start = (scanSections 0 []).evalAt data start := by
  unfold ofSections Scan.evalAt
  by_cases hInside : start ≤ data.size
  · rw [Scan.bind_of_ok (show Scan.seek start data 0 = .ok () start from if_pos hInside)]
  · rw [Scan.bind_of_error (show Scan.seek start data 0 = .error _ 0 from if_neg hInside),
      scanSections_of_error (scanSection_of_outside (Nat.zero_le start) ?_)]
    have := le_alignUp (start - 0) (show 0 < 4 by decide)
    omega

/-- From every position of every data the walk moves over sections with increasing starts and ends,
whose heads and clauses have room behind the position. Either the last of them is the first one that
does not announce another, and the clauses of all are found in their order. Or all of them announce
another one, and the walk fails with what is wrong behind them. -/
theorem chain_of_ofSections (data : Bytes) (start : Nat) :
    ∃ links stop, Chain 0 data start links stop ∧
      (links.Pairwise fun j k => j.start < k.start ∧ j.stop < k.stop ∧ j.stop ≤ k.start) ∧
      (∀ k ∈ links, start ≤ k.start ∧ k.start < k.stop ∧ k.stop ≤ stop) ∧
      4 * links.length + 12 * (links.flatMap Link.clauses).length ≤ data.size - start ∧
      ((∃ before last, links = before ++ [last] ∧ (∀ k ∈ before, k.more = true) ∧
          last.more = false ∧ ofSections data start = .ok (links.flatMap Link.clauses)) ∨
        (∀ k ∈ links, k.more = true) ∧ ∃ fault position,
          scanSection 0 data stop = .error fault position ∧
            ofSections data start = .error fault) := by
  obtain ⟨links, stop, hChain, hMore, hEnd⟩ := exists_chain data (Nat.zero_le start)
  have hWalk : scanSections 0 [] data start
      = scanSections 0 (links.flatMap Link.clauses) data stop :=
    hChain.walk (Nat.zero_le start) hMore
  cases hScan : scanSection 0 data stop with
  | error fault position =>
      refine ⟨links, stop, hChain, hChain.increasing, hChain.bounds.2, hChain.room_data,
        .inr ⟨hMore, fault, position, hScan, ?_⟩⟩
      rw [ofSections_eq, Scan.evalAt, hWalk, scanSections_of_error hScan]
  | ok read next =>
      obtain ⟨clauses, more⟩ := read
      cases more with
      | true => exact absurd hScan (hEnd clauses next)
      | false =>
          obtain ⟨fat, hStands⟩ := (scanSection_eq_ok_iff (Nat.zero_le _)).1 hScan
          have hWhole := hChain.append_last rfl hStands
          refine ⟨_, next, hWhole, hWhole.increasing, hWhole.bounds.2, hWhole.room_data,
            .inl ⟨links, _, rfl, hMore, rfl, ?_⟩⟩
          rw [ofSections_eq, Scan.evalAt, hWalk, scanSections_of_last hScan]
          simp

/-- A small section with two bytes behind its clause, and a fat one that starts at the next multiple
of four. -/
example : ofSections #[0x81, 18, 0, 0, 2, 0, 0, 0, 1, 1, 0, 1, 0, 0, 0, 0, 0xFF, 0xFF, 0xFF, 0xFF,
    0x41, 28, 0, 0, 0, 0, 0, 0, 0, 0, 0, 0, 1, 0, 0, 0, 2, 0, 0, 0, 1, 0, 0, 0, 1, 0, 0, 1] 0
    = .ok [⟨⟨2⟩, 0, 1, 1, 1, 0⟩, ⟨⟨0⟩, 0, 1, 2, 1, 0x01000001⟩] := by cbv

end IlSplice.Clause
