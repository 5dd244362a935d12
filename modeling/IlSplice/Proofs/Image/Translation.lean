import IlSplice.Proofs.Patch.Faithful

/-! The translation of addresses. An address leads to its place in the only section that has it, and
that is a byte of this section unless it is in the part of the section that only memory has. -/

namespace IlSplice

open Bytes

/-- Of members that pairwise do not share a number only one can have it. -/
theorem eq_of_pairwise_not_both {α : Type} {xs : List α} {P : α → Nat → Prop} {i j n : Nat}
    {x y : α} (hPairwise : xs.Pairwise fun x y => ∀ n, ¬ (P x n ∧ P y n)) (hx : xs[i]? = some x)
    (hy : xs[j]? = some y) (hFirst : P x n) (hSecond : P y n) : i = j := by
  obtain ⟨hi, rfl⟩ := List.getElem?_eq_some_iff.1 hx
  obtain ⟨hj, rfl⟩ := List.getElem?_eq_some_iff.1 hy
  have hOrdered := List.pairwise_iff_getElem.1 hPairwise
  rcases Nat.lt_trichotomy i j with hLess | hSame | hMore
  · exact (hOrdered i j hi hj hLess n ⟨hFirst, hSecond⟩).elim
  · exact hSame
  · exact (hOrdered j i hj hi hMore n ⟨hSecond, hFirst⟩).elim

namespace Section

/-- The section has the address in memory. -/
def Contains (s : Section) (rva : Nat) : Prop := s.address.toNat ≤ rva ∧ rva < s.stop

instance (s : Section) (rva : Nat) : Decidable (s.Contains rva) :=
  inferInstanceAs (Decidable (_ ∧ _))

/-- The section has the byte of the file. -/
def Stores (s : Section) (offset : Nat) : Prop :=
  s.rawOffset.toNat ≤ offset ∧ offset < s.rawOffset.toNat + s.rawSize.toNat

/-- The section has the address in memory, and what is there comes from the file. -/
def Backs (s : Section) (rva : Nat) : Prop :=
  s.Contains rva ∧ rva < s.address.toNat + s.rawSize.toNat

/-- The place of an address in the file, as far from the start of the section as in memory. -/
def place (s : Section) (rva : Nat) : Nat := rva - s.address.toNat + s.rawOffset.toNat

variable {s : Section} {rva rva' : Nat}

/-- An address leads to a byte of its section exactly if the file has what is there in memory. -/
theorem stores_place_iff (hContains : s.Contains rva) : s.Stores (s.place rva) ↔ s.Backs rva := by
  have hStart := hContains.1
  rw [Stores, place, Backs, and_iff_right hContains]
  omega

/-- A section with no more bytes in memory than in the file is in the file as a whole. -/
theorem backs_of_le (hSize : s.virtualSize.toNat ≤ s.rawSize.toNat) (hContains : s.Contains rva) :
    s.Backs rva := by
  have hStop := hContains.2
  rw [stop, extent, Nat.max_eq_right hSize] at hStop
  exact ⟨hContains, hStop⟩

/-- Within one section different addresses lead to different places. -/
theorem place_injective (hContains : s.Contains rva) (hContains' : s.Contains rva')
    (hSame : s.place rva = s.place rva') : rva = rva' := by
  have hStart := hContains.1
  have hStart' := hContains'.1
  unfold place at hSame
  omega

end Section

namespace Image

/-- No two sections have an address or a byte of the file in common. -/
structure Disjoint (image : Image) : Prop where
  memory : image.headers.sections.Pairwise fun s t => ∀ rva, ¬ (s.Contains rva ∧ t.Contains rva)
  file : image.headers.sections.Pairwise fun s t => ∀ offset, ¬ (s.Stores offset ∧ t.Stores offset)

variable {image : Image} {rva rva' offset : Nat} {sections : List Section}

/-- Sections are tried in order. One that reaches beyond the address space is a fault even if the
address lies in a later section. -/
theorem offsetIn_cons (s : Section) (rest : List Section) : offsetIn rva (s :: rest)
    = if 0x100000000 ≤ s.stop then .error (.sectionOverflow s.address.toNat s.extent)
      else if s.Contains rva then .ok (s.place rva) else offsetIn rva rest := rfl

/-- An address leads to its place in the first section that has it. Up to there, all sections have
to end within 32 bits. -/
theorem offsetIn_eq_ok : offsetIn rva sections = .ok offset ↔
    ∃ before s after, sections = before ++ s :: after ∧
      (∀ t ∈ before, t.stop < 0x100000000 ∧ ¬ t.Contains rva) ∧ s.stop < 0x100000000 ∧
      s.Contains rva ∧ s.place rva = offset := by
  induction sections with
  | nil => simp [offsetIn]
  | cons first rest ih =>
      rw [offsetIn_cons]
      constructor
      · intro hOffset
        split at hOffset
        · cases hOffset
        rename_i hFits
        split at hOffset
        · rename_i hContains
          exact ⟨[], first, rest, rfl, List.forall_mem_nil _, Nat.lt_of_not_le hFits, hContains,
            Except.ok.inj hOffset⟩
        · rename_i hOutside
          obtain ⟨before, s, after, rfl, hBefore, hFound⟩ := ih.1 hOffset
          refine ⟨first :: before, s, after, rfl, ?_, hFound⟩
          exact List.forall_mem_cons.2 ⟨⟨Nat.lt_of_not_le hFits, hOutside⟩, hBefore⟩
      · rintro ⟨before, s, after, hSections, hBefore, hFits, hContains, hPlace⟩
        cases before with
        | nil =>
            cases hSections
            rw [if_neg (Nat.not_le_of_lt hFits), if_pos hContains, hPlace]
        | cons t before =>
            cases hSections
            obtain ⟨⟨hFits', hOutside⟩, hBefore⟩ := List.forall_mem_cons.1 hBefore
            rw [if_neg (Nat.not_le_of_lt hFits'), if_neg hOutside]
            exact ih.2 ⟨before, s, after, rfl, hBefore, hFits, hContains, hPlace⟩

/-- An address that leads somewhere leads to its place in a section. -/
theorem place_of_offsetOf (hOffset : image.offsetOf rva = .ok offset) :
    ∃ (i : Nat) (s : Section), image.headers.sections[i]? = some s ∧ s.Contains rva ∧
      s.place rva = offset := by
  unfold offsetOf at hOffset
  split at hOffset
  · cases hOffset
  · obtain ⟨before, s, after, hSections, _, _, hContains, hPlace⟩ := offsetIn_eq_ok.1 hOffset
    exact ⟨before.length, s, by rw [hSections, List.getElem?_append_right (Nat.le_refl _)]; simp,
      hContains, hPlace⟩

/-- In an image whose sections lie apart, an address leads to its place in the one section that has
it. This is a byte of the section exactly if the section has bytes in the file for the address, and
two such addresses never lead to the same byte. -/
theorem offsetOf_of_disjoint (hDisjoint : image.Disjoint) :
    (∀ rva offset, image.offsetOf rva = .ok offset →
      ∃ (i : Nat) (s : Section), image.headers.sections[i]? = some s ∧ s.Contains rva ∧
        (∀ (j : Nat) (t : Section), image.headers.sections[j]? = some t → t.Contains rva → j = i) ∧
        offset = s.rawOffset.toNat + (rva - s.address.toNat) ∧ (s.Stores offset ↔ s.Backs rva) ∧
        (s.virtualSize.toNat ≤ s.rawSize.toNat → s.Backs rva)) ∧
    ∀ rva rva' offset, image.offsetOf rva = .ok offset → image.offsetOf rva' = .ok offset →
      rva ≠ rva' → ∃ s ∈ image.headers.sections,
        s.Contains rva ∧ ¬ s.Backs rva ∨ s.Contains rva' ∧ ¬ s.Backs rva' := by
  constructor
  · intro rva offset hOffset
    obtain ⟨i, s, hSection, hContains, rfl⟩ := place_of_offsetOf hOffset
    refine ⟨i, s, hSection, hContains, fun j t hOther hAlso => ?_, Nat.add_comm _ _,
      Section.stores_place_iff hContains, fun hSize => Section.backs_of_le hSize hContains⟩
    exact eq_of_pairwise_not_both hDisjoint.memory hOther hSection hAlso hContains
  · intro rva rva' offset hOffset hOffset' hDiffer
    obtain ⟨i, s, hSection, hContains, hPlace⟩ := place_of_offsetOf hOffset
    obtain ⟨i', s', hSection', hContains', hPlace'⟩ := place_of_offsetOf hOffset'
    by_contra hAll
    push Not at hAll
    have hBacks := (hAll s (List.mem_of_getElem? hSection)).1 hContains
    have hBacks' := (hAll s' (List.mem_of_getElem? hSection')).2 hContains'
    have hStores := (Section.stores_place_iff hContains).2 hBacks
    have hStores' := (Section.stores_place_iff hContains').2 hBacks'
    rw [hPlace] at hStores
    rw [hPlace'] at hStores'
    -- Both sections have the byte, so that they are one and the same.
    obtain rfl := eq_of_pairwise_not_both hDisjoint.file hSection hSection' hStores hStores'
    obtain rfl := Option.some.inj (hSection.symm.trans hSection')
    exact hDiffer (Section.place_injective hContains hContains' (hPlace.trans hPlace'.symm))

/-- Two sections that lie apart. The first one has eight bytes more in memory than in the file,
where the second one follows. -/
def zeroFilledSections : List Section :=
  [⟨#[0x2E, 0x74, 0x65, 0x78, 0x74, 0, 0, 0], 208, 384, 200, 384⟩,
    ⟨#[0x2E, 0x64, 0x61, 0x74, 0x61, 0, 0, 0], 8, 592, 8, 584⟩]

/-- A file with these sections. -/
def zeroFilled : Bytes :=
  [Module.sampleHeaders 2 216 384 384, [0x2E, 0x74, 0x65, 0x78, 0x74, 0, 0, 0], leBytes 4 208,
    leBytes 4 384, leBytes 4 200, leBytes 4 384, .replicate 16 0,
    [0x2E, 0x64, 0x61, 0x74, 0x61, 0, 0, 0], leBytes 4 8, leBytes 4 592, leBytes 4 8,
    leBytes 4 584, .replicate 16 0, Module.sampleCode 464, Module.sampleMetadata 456,
    .replicate 8 0x2A].flatten.toArray

/-- The file is accepted, its sections lie apart, and two addresses lead to the same byte. -/
theorem read_zeroFilled : ∃ image, ofBytes zeroFilled = .ok image ∧ image.Disjoint ∧
    image.headers.sections = zeroFilledSections ∧ image.offsetOf 584 = .ok 584 ∧
    image.offsetOf 592 = .ok 584 := by
  have hSections : ((ofBytes zeroFilled).toOption.map (·.headers.sections))
      = some zeroFilledSections := by
    decide +kernel
  obtain ⟨image, hRead, hList⟩ := Option.map_eq_some_iff.1 hSections
  refine ⟨image, Except.toOption_eq_some.1 hRead, ⟨?_, ?_⟩, hList, ?_, ?_⟩
  · rw [hList, zeroFilledSections, List.pairwise_pair]
    rintro rva ⟨⟨_, hStop⟩, ⟨hStart, _⟩⟩
    exact absurd (Nat.lt_of_le_of_lt hStart hStop) (by decide)
  · rw [hList, zeroFilledSections, List.pairwise_pair]
    rintro offset ⟨⟨_, hStop⟩, ⟨hStart, _⟩⟩
    exact absurd (Nat.lt_of_le_of_lt hStart hStop) (by decide)
  · rw [offsetOf, hList]
    rfl
  · rw [offsetOf, hList]
    rfl

/-- The general statement at two addresses. One of them is in the part of its section that only
memory has, and its place belongs to another section. -/
theorem offsetOf_of_disjoint_zeroFilled : ∃ image, ofBytes zeroFilled = .ok image ∧
    image.Disjoint ∧ image.offsetOf 592 = .ok 584 ∧ image.offsetOf 584 = .ok 584 ∧
    (∃ (i : Nat) (s : Section), image.headers.sections[i]? = some s ∧ s.Contains 592 ∧
      (∀ (j : Nat) (t : Section), image.headers.sections[j]? = some t → t.Contains 592 → j = i) ∧
      584 = s.rawOffset.toNat + (592 - s.address.toNat) ∧ (s.Stores 584 ↔ s.Backs 592) ∧
      (s.virtualSize.toNat ≤ s.rawSize.toNat → s.Backs 592)) ∧
    ∃ s ∈ image.headers.sections,
      s.Contains 592 ∧ ¬ s.Backs 592 ∨ s.Contains 584 ∧ ¬ s.Backs 584 := by
  obtain ⟨image, hRead, hDisjoint, _, hTail, hData⟩ := read_zeroFilled
  obtain ⟨hInside, hApart⟩ := offsetOf_of_disjoint hDisjoint
  exact ⟨image, hRead, hDisjoint, hData, hTail, hInside 592 584 hData,
    hApart 592 584 584 hData hTail (by decide)⟩

/-- An address does not always lead to a byte of its section, and two addresses can lead to the same
byte, although all sections lie apart. -/
theorem not_stores_of_disjoint : ∃ image, ofBytes zeroFilled = .ok image ∧ image.Disjoint ∧
    image.offsetOf 584 = .ok 584 ∧ image.offsetOf 592 = .ok 584 ∧
    ∀ s ∈ image.headers.sections, s.Contains 584 → ¬ s.Stores 584 := by
  obtain ⟨image, hRead, hDisjoint, hSections, hTail, hData⟩ := read_zeroFilled
  refine ⟨image, hRead, hDisjoint, hTail, hData, ?_⟩
  rw [hSections]
  rintro s hMem ⟨hStart, _⟩ ⟨_, hEnd⟩
  rcases List.mem_pair.1 hMem with rfl | rfl
  · exact absurd hEnd (by decide)
  · exact absurd hStart (by decide)

end Image

end IlSplice
