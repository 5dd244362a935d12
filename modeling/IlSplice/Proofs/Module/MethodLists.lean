import IlSplice.Proofs.Module.Reload
import IlSplice.Proofs.Patch.Faithful

/-! The types that methods belong to. The list of a type ends where that of the next type starts,
so if the lists stand in order, every method belongs to exactly one type. -/

namespace IlSplice

namespace TypeDef

variable {image : Image} {s : Streams} {count row : Nat} {columns : TypeDefRow}
  {rows : List TypeDefRow} {types : List TypeDef}

/-- The rows of the methods of each type. -/
def methodLists (count : Nat) : List TypeDefRow → List (List Nat)
  | [] => []
  | columns :: rest => methodRows count columns rest.head? :: methodLists count rest

/-- The lists of methods stand in order. -/
def Ordered (rows : List TypeDefRow) : Prop := (rows.map (·.methodList)).Pairwise (· ≤ ·)

/-- The lists are in order if the first one starts in front of all others and these are in order. -/
theorem ordered_cons {rest : List TypeDefRow} :
    Ordered (columns :: rest) ↔ (∀ r ∈ rest, columns.methodList ≤ r.methodList) ∧ Ordered rest := by
  rw [Ordered, List.map_cons, List.pairwise_cons, List.forall_mem_map]
  rfl

/-- The methods of a type are the rows from the start of its list up to that of the next one, as far
as they are there. Row zero is no row. -/
theorem mem_methodRows {next : Option TypeDefRow} {i : Nat} :
    i ∈ methodRows count columns next ↔
      (columns.methodList ≤ i ∧ 1 ≤ i) ∧ i ≤ count ∧ ∀ r ∈ next, i < r.methodList := by
  rw [methodRows, List.mem_range'_1]
  cases next with
  | none =>
      simp only [Option.map_none, Option.getD_none, Option.not_mem_none, IsEmpty.forall_iff,
        implies_true, and_true]
      omega
  | some r =>
      simp only [Option.map_some, Option.getD_some, Option.mem_some_iff, forall_eq']
      omega

/-- Types from any one on have all methods from its own first one on. -/
theorem flatten_methodLists {rest : List TypeDefRow} (hOrder : Ordered (columns :: rest)) :
    (methodLists count (columns :: rest)).flatten
      = List.range' (max columns.methodList 1) (count + 1 - max columns.methodList 1) := by
  induction rest generalizing columns with
  | nil => simp [methodLists, methodRows]
  | cons next rest ih =>
      obtain ⟨hFirst, hRest⟩ := ordered_cons.1 hOrder
      have hNext := hFirst next (List.mem_cons_self ..)
      rw [methodLists, List.flatten_cons, ih hRest, methodRows]
      simp only [List.head?_cons, Option.map_some, Option.getD_some]
      rcases Nat.lt_or_ge (count + 1) next.methodList with hBeyond | hInside
      · -- The next type has no methods, nor has any type behind it.
        rw [Nat.min_eq_right (by omega), show count + 1 - max next.methodList 1 = 0 by omega,
          List.range'_zero, List.append_nil]
      · rcases Nat.lt_or_ge next.methodList (max columns.methodList 1) with hBefore | hBehind
        · -- Both lists start with row zero, which is no row.
          rw [show min next.methodList (count + 1) - max columns.methodList 1 = 0 by omega,
            show max next.methodList 1 = max columns.methodList 1 by omega, List.range'_zero,
            List.nil_append]
        · rw [Nat.min_eq_left hInside, show max next.methodList 1
            = max columns.methodList 1 + (next.methodList - max columns.methodList 1) by omega,
            List.range'_append_1]
          congr 1
          omega

/-- By induction on the types, each of which loads the methods of its own list. -/
theorem forall₂_of_loadAll {nested : List Nat}
    (hLoad : loadAll image s nested row rows = .ok types) :
    List.Forall₂ (fun list t => list.mapM (MethodDef.load image s) = .ok t.methods)
      (methodLists (s.tables.rows .methodDef) rows) types := by
  induction rows generalizing row types with
  | nil =>
      cases hLoad
      exact .nil
  | cons columns rest ih =>
      obtain ⟨t, others, rfl, hOthers, _, _, _, _, hMethods⟩ := loadAll_cons_eq_ok hLoad
      exact .cons hMethods (ih hOthers)

theorem length_methodLists (count : Nat) (rows : List TypeDefRow) :
    (methodLists count rows).length = rows.length := by
  induction rows with
  | nil => rfl
  | cons columns rest ih => exact congrArg (· + 1) ih

/-- A method of a type is at or behind the start of its own list, and in front of all later ones. -/
theorem bounds_of_mem_methodLists (hOrder : Ordered rows) {i : Nat} {list : List Nat}
    (hRow : rows[i]? = some columns) (hList : (methodLists count rows)[i]? = some list)
    (hMem : row ∈ list) : columns.methodList ≤ row ∧
      ∀ j later, i < j → rows[j]? = some later → row < later.methodList := by
  induction rows generalizing i with
  | nil => cases hRow
  | cons head rest ih =>
      obtain ⟨hFirst, hRest⟩ := ordered_cons.1 hOrder
      cases i with
      | zero =>
          cases hRow
          cases hList
          obtain ⟨⟨hStart, -⟩, -, hStop⟩ := mem_methodRows.1 hMem
          refine ⟨hStart, fun j later hj hLater => ?_⟩
          obtain ⟨j, rfl⟩ := Nat.exists_eq_succ_of_ne_zero (Nat.ne_of_gt hj)
          rw [List.getElem?_cons_succ] at hLater
          cases rest with
          | nil => cases hLater
          | cons next rest =>
              refine Nat.lt_of_lt_of_le (hStop next rfl) ?_
              rcases List.mem_cons.1 (List.mem_of_getElem? hLater) with rfl | hMem
              · exact Nat.le_refl _
              · exact (ordered_cons.1 hRest).1 later hMem
      | succ i =>
          obtain ⟨hStart, hStop⟩ := ih hRest hRow hList
          refine ⟨hStart, fun j later hj hLater => ?_⟩
          obtain ⟨j, rfl⟩ := Nat.exists_eq_succ_of_ne_zero (Nat.ne_of_gt (Nat.zero_lt_of_lt hj))
          exact hStop j later (Nat.lt_of_succ_lt_succ hj) hLater

end TypeDef

namespace Module

variable {image : Image} {md : Metadata} {s : Streams} {m : Module}

/-- If the lists of methods stand in order, the first one from the first row on, then all rows of
the table are the methods of the types, one behind the other, and every method stands between the
start of the list of its type and those of all later types. -/
theorem methods_of_ofImage (hLoad : ofImage image = .ok m)
    (hMetadata : Metadata.locate image = .ok md) (hStreams : Streams.ofMetadata md = .ok s)
    {first : TypeDefRow} {rest : List TypeDefRow}
    (hTypes : s.tables.getAll TypeDefRow = .ok (first :: rest)) (hFirst : first.methodList ≤ 1)
    (hOrder : TypeDef.Ordered (first :: rest)) :
    List.Forall₂ (fun row method => (∃ columns, method.LoadedFrom image s row columns) ∧
        method.token.table = Token.methodDefTable ∧ method.token.row = row)
      (List.range' 1 (s.tables.rows .methodDef)) (m.types.flatMap (·.methods)) ∧
    m.types.length = (first :: rest).length ∧
    ∀ (i : Nat) (t : TypeDef) (columns : TypeDefRow), m.types[i]? = some t →
      (first :: rest)[i]? = some columns → ∀ method ∈ t.methods,
        columns.methodList ≤ method.token.row ∧
        ∀ (j : Nat) (later : TypeDefRow), i < j → (first :: rest)[j]? = some later →
          method.token.row < later.methodList := by
  obtain ⟨md', s', hFrom⟩ := loadedFrom_of_ofImage hLoad
  cases hMetadata.symm.trans hFrom.metadata
  cases hStreams.symm.trans hFrom.streams
  obtain ⟨nested, rows, _, hRows, hAll⟩ := hFrom.types
  cases hTypes.symm.trans hRows
  have hLists := TypeDef.forall₂_of_loadAll hAll
  have hMethod : ∀ {row : Nat} {method : MethodDef}, MethodDef.load image s row = .ok method →
      (∃ columns, method.LoadedFrom image s row columns) ∧
        method.token.table = Token.methodDefTable ∧ method.token.row = row := by
    intro row method hOne
    obtain ⟨columns, hMethodFrom⟩ := MethodDef.loadedFrom_of_load hOne
    refine ⟨⟨columns, hMethodFrom⟩, ?_, hMethodFrom.row_token (hFrom.rows_le _)⟩
    rw [hMethodFrom.token_eq, Token.table_ofParts]
    rfl
  refine ⟨?_, ?_, fun i t columns hType hColumns method hMem => ?_⟩
  · have hFlat : (TypeDef.methodLists (s.tables.rows .methodDef) (first :: rest)).flatten = _ :=
      TypeDef.flatten_methodLists hOrder
    rw [Nat.max_eq_right hFirst, Nat.add_sub_cancel] at hFlat
    rw [← hFlat, List.flatMap_def]
    refine List.rel_flatten (List.forall₂_map_right_iff.2 (hLists.imp fun list t hList => ?_))
    exact (Except.mapM_eq_ok.1 hList).imp fun _ _ => hMethod
  · rw [← hLists.length_eq, TypeDef.length_methodLists]
  · obtain ⟨list, hList, hLoaded⟩ := forall₂_getElem? hLists.flip hType
    obtain ⟨row, hRow, hOne⟩ := forall₂_mem_right (Except.mapM_eq_ok.1 hLoaded) hMem
    rw [(hMethod hOne).2.2]
    exact TypeDef.bounds_of_mem_methodLists hOrder hColumns hList hRow

/-- Loads a file, and tells where the lists of its types start and how many methods there are. -/
def listStarts (data : Bytes) : Except Fault (List Nat × Nat) := do
  let image ← Image.ofBytes data
  let _ ← ofImage image
  let s ← Streams.ofMetadata (← Metadata.locate image)
  let types ← s.tables.getAll TypeDefRow
  return (types.map (·.methodList), s.tables.rows .methodDef)

/-- A file of four types and three methods without bodies. One list starts with row zero and one
beyond the end of the table, so that both of them are empty. -/
def fourTypes : Bytes :=
  let type := [leBytes 4 1, leBytes 2 1, leBytes 4 0, leBytes 2 1].flatten
  let method := [leBytes 8 0, leBytes 2 1, leBytes 2 0, leBytes 2 1].flatten
  let tables := [leBytes 4 0, [2, 0, 0, 1], leBytes 8 0x44, leBytes 8 0, leBytes 4 4, leBytes 4 3,
    type ++ leBytes 2 0, type ++ leBytes 2 1, type ++ leBytes 2 3, type ++ leBytes 2 9,
    method, method, method, leBytes 2 0].flatten
  [sampleHeaders 1 216 384 384, [0x2E, 0x74, 0x65, 0x78, 0x74, 0, 0, 0], leBytes 4 272,
    leBytes 4 384, leBytes 4 272, leBytes 4 384, .replicate 56 0, (sampleCode 464).set 12 192,
    (((sampleMetadata 0).take 56).set 28 132).set 36 188, tables, [0, 0x41, 0, 0]].flatten.toArray

/-- The lists start in order, and the last one starts behind all methods. -/
theorem listStarts_fourTypes : (listStarts fourTypes).toOption = some ([0, 1, 3, 9], 3) := by
  unfold listStarts ofImage Streams.ofMetadata Metadata.stream Metadata.stream? Metadata.locate
    Image.slice Bytes.slice
  simp only [Bytes.extract_eq_toArray]
  decide +kernel

/-- All three methods belong to a type, in the order of their rows, although two lists start outside
the table. -/
theorem methods_of_ofImage_fourTypes : ∃ m, ofBytes fourTypes = .ok m ∧ m.types.length = 4 ∧
    (m.types.flatMap (·.methods)).map (·.token.row) = [1, 2, 3] ∧
    ∀ t, m.types[1]? = some t → ∀ method ∈ t.methods,
      1 ≤ method.token.row ∧ method.token.row < 3 := by
  obtain ⟨image, hRead, hOk⟩ := Except.bind_eq_ok.1 (Except.toOption_eq_some.1 listStarts_fourTypes)
  obtain ⟨m, hLoad, hOk⟩ := Except.bind_eq_ok.1 hOk
  obtain ⟨md, hMetadata, hOk⟩ := Except.bind_eq_ok.1 hOk
  obtain ⟨s, hStreams, hOk⟩ := Except.bind_eq_ok.1 hOk
  obtain ⟨rows, hTypes, hOk⟩ := Except.bind_eq_ok.1 hOk
  obtain ⟨hLists, hCount⟩ := Prod.mk.inj (Except.ok.inj hOk)
  have hOrder : TypeDef.Ordered rows := by
    rw [TypeDef.Ordered, hLists]
    decide
  obtain ⟨first, rest, rfl, hFirst, hLists⟩ := List.map_eq_cons_iff.1 hLists
  obtain ⟨second, rest, rfl, hSecond, hLists⟩ := List.map_eq_cons_iff.1 hLists
  obtain ⟨third, rest, rfl, hThird, hLists⟩ := List.map_eq_cons_iff.1 hLists
  obtain ⟨last, rfl, -⟩ := List.map_eq_singleton_iff.1 hLists
  obtain ⟨hMethods, hLength, hBounds⟩ := methods_of_ofImage hLoad hMetadata hStreams hTypes
    (by omega) hOrder
  have hRows := List.forall₂_map_right_iff.2 (hMethods.imp fun _ _ h => h.2.2.symm)
  rw [hCount, List.forall₂_eq_eq_eq] at hRows
  refine ⟨m, Except.bind_eq_ok.2 ⟨image, hRead, hLoad⟩, hLength, hRows.symm,
    fun t hType method hMem => ?_⟩
  obtain ⟨hStart, hStop⟩ := hBounds 1 t second hType rfl method hMem
  rw [← hSecond, ← hThird]
  exact ⟨hStart, hStop 2 third (by decide) rfl⟩

end Module

end IlSplice
