import IlSplice.Proofs.Module.Streams

/-! A module that is loaded from another image. Everything that was found in the first image is
found in the other one, apart from one method, which has a new body. -/

namespace IlSplice

open Bytes

/-- Two lists that are related to a third one member by member are related to each other. -/
theorem forall₂_of_common {α β γ : Type} {P : α → β → Prop} {Q : α → γ → Prop} {R : β → γ → Prop}
    {xs : List α} {ys : List β} {zs : List γ} (hFirst : List.Forall₂ P xs ys)
    (hSecond : List.Forall₂ Q xs zs) (hBoth : ∀ x, ∀ y ∈ ys, ∀ z, P x y → Q x z → R y z) :
    List.Forall₂ R ys zs := by
  induction hFirst generalizing zs with
  | nil =>
      cases hSecond
      exact .nil
  | cons hHead _ ih =>
      cases hSecond with
      | cons hHead' hTail' =>
          refine .cons (hBoth _ _ (List.mem_cons_self ..) _ hHead hHead') (ih hTail' ?_)
          exact fun x y hy => hBoth x y (List.mem_cons_of_mem _ hy)

namespace Streams.Carries

variable {s s' : Streams} {redirects : List Redirect} {r : Redirect} {pool : LiteralPool}

/-- Rows of all tables but that of the methods are the same. -/
theorem get_eq (h : s.Carries s' redirects pool) {α : Type} [TableRow α]
    (hOther : TableRow.table α ≠ .methodDef) (row : Nat) :
    s'.tables.get α row = s.tables.get α row := by
  unfold TableStream.get
  rw [h.row _ _ fun _ _ hSame => (hOther hSame).elim]

theorem getAll_eq (h : s.Carries s' redirects pool) {α : Type} [TableRow α]
    (hOther : TableRow.table α ≠ .methodDef) : s'.tables.getAll α = s.tables.getAll α := by
  unfold TableStream.getAll
  rw [h.rows_eq, show s'.tables.get α = s.tables.get α from funext (h.get_eq hOther)]

/-- Only the address of the redirected method changes. -/
theorem method (h : s.Carries s' [r] pool) {row : Nat} {columns : MethodDefRow}
    (hRow : s.tables.get MethodDefRow row = .ok columns) : s'.tables.get MethodDefRow row
      = .ok { columns with rva := if row = r.row then r.rva.toNat else columns.rva } := by
  obtain ⟨values, hValues, hColumns⟩ := Except.bind_eq_ok.1 hRow
  by_cases hSame : row = r.row
  · obtain ⟨rva, rest, hOld, hNew⟩ := h.redirected [] r [] rfl (by simp)
    rw [hSame] at hValues
    obtain rfl := Except.ok.inj (hOld.symm.trans hValues)
    rw [if_pos hSame, hSame]
    refine Except.bind_eq_ok.2 ⟨_, hNew, ?_⟩
    match rest, hColumns with
    | [_, _, _, _, _], hColumns =>
        cases hColumns
        rfl
  · rw [if_neg hSame]
    refine Except.bind_eq_ok.2 ⟨values, ?_, hColumns⟩
    rw [← hValues]
    exact h.row _ _ fun r' hMem _ => List.mem_singleton.1 hMem ▸ hSame

/-- A name that a token led to is still found by it. The row of a method is changed in its address
only. -/
theorem memberName (h : s.Carries s' [r] pool) {t : Token} {name : String}
    (hName : s.memberName t = .ok name) : s'.memberName t = .ok name := by
  unfold Streams.memberName at hName ⊢
  split at hName
  · obtain ⟨columns, hColumns, hName⟩ := Except.bind_eq_ok.1 hName
    rw [if_pos ‹_›]
    exact Except.bind_eq_ok.2 ⟨_, h.method hColumns, h.name _ _ hName⟩
  · rw [if_neg ‹_›]
    split at hName
    · obtain ⟨columns, hColumns, hName⟩ := Except.bind_eq_ok.1 hName
      rw [if_pos ‹_›, h.get_eq (by decide)]
      exact Except.bind_eq_ok.2 ⟨columns, hColumns, h.name _ _ hName⟩
    · cases hName

/-- Tokens in code refer to what they referred to. -/
theorem resolver_extends (h : s.Carries s' [r] pool) : s.resolver.Extends s'.resolver where
  method t name hName := by
    change s.methodName t = .ok name at hName
    change s'.methodName t = .ok name
    unfold Streams.methodName at hName ⊢
    split at hName
    · obtain ⟨columns, hColumns, hName⟩ := Except.bind_eq_ok.1 hName
      rw [if_pos ‹_›, h.get_eq (by decide)]
      exact Except.bind_eq_ok.2 ⟨columns, hColumns, h.memberName hName⟩
    · rw [if_neg ‹_›]
      exact h.memberName hName
  literal := h.literal

/-- The name of the module is found again. -/
theorem loadName (h : s.Carries s' [r] pool) {name : String}
    (hLoad : Module.loadName s = .ok name) : Module.loadName s' = .ok name := by
  unfold Module.loadName at hLoad ⊢
  rw [h.rows_eq]
  split at hLoad
  · rw [if_pos ‹_›, hLoad]
  · rw [if_neg ‹_›, h.get_eq (by decide)]
    obtain ⟨columns, hColumns, hName⟩ := Except.bind_eq_ok.1 hLoad
    exact Except.bind_eq_ok.2 ⟨columns, hColumns, h.name _ _ hName⟩

theorem loadAssembly (h : s.Carries s' [r] pool) {assembly : AssemblyIdentity}
    (hLoad : Module.loadAssembly s = .ok assembly) : Module.loadAssembly s' = .ok assembly := by
  unfold Module.loadAssembly at hLoad ⊢
  rw [h.get_eq (by decide)]
  obtain ⟨columns, hColumns, hLoad⟩ := Except.bind_eq_ok.1 hLoad
  obtain ⟨name, hName, hPure⟩ := Except.bind_eq_ok.1 hLoad
  exact Except.bind_eq_ok.2 ⟨columns, hColumns,
    Except.bind_eq_ok.2 ⟨name, h.name _ _ hName, hPure⟩⟩

end Streams.Carries

variable {image image' : Image} {s s' : Streams} {row : Nat}

/-- A body is loaded if its address is in the image and a body can be read there. How the fault
would be worded does not matter here. -/
theorem MethodBody.load_eq_ok (name : String) (row : Nat) {rva : Nat} {b : MethodBody} :
    MethodBody.load image s rva name row = .ok b ↔ ∃ offset stop, image.offsetOf rva = .ok offset ∧
      offset ≤ image.data.size ∧ scan s.resolver image.data offset = .ok b stop := by
  unfold load
  rw [Except.bind_eq_ok]
  constructor
  · rintro ⟨offset, hOffset, hLoad⟩
    split at hLoad
    · cases hLoad
    rename_i hInside
    split at hLoad
    · rename_i body hScan
      cases hLoad
      obtain ⟨stop, hScan⟩ := Scan.evalAt_eq_ok.1 hScan
      exact ⟨offset, stop, hOffset, Nat.le_of_not_lt hInside, hScan⟩
    · cases hLoad
  · rintro ⟨offset, stop, hOffset, hInside, hScan⟩
    refine ⟨offset, hOffset, ?_⟩
    rw [if_neg (Nat.not_lt.2 hInside), Scan.evalAt_eq_ok.2 ⟨stop, hScan⟩]
    rfl

namespace MethodDef

/-- The parts of a method that was loaded. -/
structure LoadedFrom (image : Image) (s : Streams) (row : Nat) (columns : MethodDefRow)
    (m : MethodDef) : Prop where
  columns_eq : s.tables.get MethodDefRow row = .ok columns
  name_eq : s.names.get columns.name = .ok m.name
  token_eq : m.token = Token.ofParts Token.methodDefTable row
  flags_eq : m.flags = UInt32.ofNat columns.flags
  implFlags_eq : m.implFlags = UInt32.ofNat columns.implFlags
  rva_eq : m.rva.toNat = columns.rva
  modified_eq : m.modified = false
  no_body : hasBody columns.rva columns.implFlags columns.flags = false → m.body = none
  body : hasBody columns.rva columns.implFlags columns.flags = true →
    ∃ b, MethodBody.load image s columns.rva m.name row = .ok b ∧ m.body = some b

theorem rva_lt {t : TableStream} {columns : MethodDefRow}
    (hColumns : t.get MethodDefRow row = .ok columns) : columns.rva < 2 ^ 32 := by
  obtain ⟨values, hValues, hColumns⟩ := Except.bind_eq_ok.1 hColumns
  obtain ⟨offset, _, hValues⟩ := Except.bind_eq_ok.1 hValues
  obtain ⟨stop, hScan⟩ := Scan.evalAt_eq_ok.1 hValues
  obtain ⟨rva, middle, hRva, hScan⟩ := Scan.bind_eq_ok hScan
  obtain ⟨rest, last, _, hScan⟩ := Scan.bind_eq_ok hScan
  obtain ⟨rfl, _⟩ := Scan.pure_eq_ok.1 hScan
  obtain ⟨_, _, rfl⟩ := Scan.uint_eq_ok hRva
  match rest, hColumns with
  | [_, _, _, _, _], hColumns =>
      cases hColumns
      exact uintAt_lt t.data offset 4

/-- All that is known of a method that was loaded. Later proofs refer to the parts by name. -/
theorem loadedFrom_of_load {m : MethodDef} (hLoad : load image s row = .ok m) :
    ∃ columns, m.LoadedFrom image s row columns := by
  obtain ⟨columns, hColumns, hLoad⟩ := Except.bind_eq_ok.1 hLoad
  obtain ⟨name, hName, hLoad⟩ := Except.bind_eq_ok.1 hLoad
  have hRva : (UInt32.ofNat columns.rva).toNat = columns.rva := by
    rw [UInt32.toNat_ofNat', Nat.mod_eq_of_lt (rva_lt hColumns)]
  dsimp only at hLoad
  split at hLoad
  · rename_i hSome
    obtain ⟨body, hBody, hLoad⟩ := Except.bind_eq_ok.1 hLoad
    obtain ⟨b, hLoadBody, rfl⟩ := Except.map_eq_ok.1 hBody
    cases hLoad
    exact ⟨columns, hColumns, hName, rfl, rfl, rfl, hRva, rfl, by simp [hSome],
      fun _ => ⟨b, hLoadBody, rfl⟩⟩
  · rename_i hNone
    cases hLoad
    exact ⟨columns, hColumns, hName, rfl, rfl, rfl, hRva, rfl, fun _ => rfl,
      fun hSome => (hNone hSome).elim⟩

/-- A token has room for every row that there is. -/
theorem LoadedFrom.row_token {columns : MethodDefRow} {m : MethodDef}
    (hLoad : m.LoadedFrom image s row columns)
    (hRows : s.tables.rows .methodDef ≤ TableStream.maxRows) : m.token.row = row := by
  have hRow : row ≤ s.tables.rows .methodDef := TableStream.row_le_of_get hLoad.columns_eq
  rw [hLoad.token_eq, Token.row_ofParts]
  exact Nat.mod_eq_of_lt (Nat.lt_succ_of_le (Nat.le_trans hRow hRows))

/-- A method that has a body has its row say so, and the body was read at the address of the row. -/
theorem LoadedFrom.scan_body {columns : MethodDefRow} {m : MethodDef} {b : MethodBody}
    (hLoad : m.LoadedFrom image s row columns) (hBody : m.body = some b) :
    hasBody columns.rva columns.implFlags columns.flags = true ∧ ∃ start stop,
      image.offsetOf columns.rva = .ok start ∧ start ≤ image.data.size ∧
        MethodBody.scan s.resolver image.data start = .ok b stop := by
  have hHas : hasBody columns.rva columns.implFlags columns.flags = true := by
    by_contra hNone
    rw [hLoad.no_body (by simpa using hNone)] at hBody
    cases hBody
  obtain ⟨b', hRead, hSome⟩ := hLoad.body hHas
  obtain rfl := Option.some.inj (hBody.symm.trans hSome)
  exact ⟨hHas, (MethodBody.load_eq_ok _ _).1 hRead⟩

/-- Whether a method has a body depends on its flags, and on its address only in so far as it is not
zero. -/
theorem hasBody_of_pos {rva rva' implFlags flags : Nat} (hHas : hasBody rva implFlags flags = true)
    (hPos : 0 < rva') : hasBody rva' implFlags flags = true := by
  unfold hasBody at hHas ⊢
  simp only [Bool.and_eq_true, decide_eq_true_eq] at hHas ⊢
  exact ⟨⟨⟨Nat.ne_of_gt hPos, hHas.1.1.2⟩, hHas.1.2⟩, hHas.2⟩

/-- The method has a body, which takes these bytes of the file. -/
def Occupies (image : Image) (m : MethodDef) (span : Span) : Prop :=
  m.body.isSome ∧ image.offsetOf m.rva.toNat = .ok span.start ∧
    ∃ resolver b, MethodBody.scan resolver image.data span.start = .ok b span.stop

/-- The other method is the same one, and only the method of a token may have another body. -/
structure Becomes (target : Token) (R : MethodBody → MethodBody → Prop) (m m' : MethodDef) :
    Prop where
  token_eq : m'.token = m.token
  name_eq : m'.name = m.name
  flags_eq : m'.flags = m.flags
  implFlags_eq : m'.implFlags = m.implFlags
  other : m.token ≠ target → m'.body = m.body
  rewritten : m.token = target → ∃ b b', m.body = some b ∧ m'.body = some b' ∧ R b b'

end MethodDef

/-- The other image has everything that the first one has, up to bytes that no body takes. -/
structure Image.Keeps (image image' : Image) (methods : MethodDef → Prop) : Prop where
  offsetOf : ∀ address offset, image.offsetOf address = .ok offset →
    image'.offsetOf address = .ok offset
  size_le : image.data.size ≤ image'.data.size
  bodies : ∀ m, methods m → ∀ span, m.Occupies image span →
    image.data.Agree image'.data span.start span.stop

namespace MethodDef

variable {r : Redirect} {pool : LiteralPool} {R : MethodBody → MethodBody → Prop}
  {methods : MethodDef → Prop} {m m' : MethodDef}

/-- A body that is kept is loaded as it was, whatever the method is called. -/
theorem load_body_of_keeps (hCarries : s.Carries s' [r] pool) (hKeeps : image.Keeps image' methods)
    (hMethod : methods m) {columns : MethodDefRow} (hLoad : m.LoadedFrom image s row columns)
    (hHas : hasBody columns.rva columns.implFlags columns.flags = true) (name : String) :
    ∃ b, m.body = some b ∧ MethodBody.load image' s' columns.rva name row = .ok b := by
  obtain ⟨b, hBody, hSome⟩ := hLoad.body hHas
  obtain ⟨offset, stop, hOffset, hInside, hScan⟩ := (MethodBody.load_eq_ok _ _).1 hBody
  obtain ⟨_, hStop, _, _, hCongr⟩ := MethodBody.scan_congr hScan
  have hAgree := hKeeps.bodies m hMethod ⟨offset, stop⟩
    ⟨by rw [hSome, Option.isSome_some], by rw [hLoad.rva_eq, hOffset], _, b, hScan⟩
  have hSize := hKeeps.size_le
  have hAgain := hCongr image'.data s'.resolver hAgree (by omega) hCarries.resolver_extends
  exact ⟨b, hSome, (MethodBody.load_eq_ok name row).2
    ⟨offset, stop, hKeeps.offsetOf _ _ hOffset, by omega, hAgain⟩⟩

/-- A method that is not redirected has the body that it had. -/
theorem body_of_load (hCarries : s.Carries s' [r] pool) (hKeeps : image.Keeps image' methods)
    (hMethod : methods m) (hOther : row ≠ r.row) {columns columns' : MethodDefRow}
    (hLoad : m.LoadedFrom image s row columns) (hLoad' : m'.LoadedFrom image' s' row columns') :
    m'.body = m.body := by
  have hColumns := hCarries.method hLoad.columns_eq
  rw [if_neg hOther, hLoad'.columns_eq] at hColumns
  obtain rfl := Except.ok.inj hColumns
  cases hHas : hasBody columns.rva columns.implFlags columns.flags with
  | false => rw [hLoad.no_body hHas, hLoad'.no_body hHas]
  | true =>
      obtain ⟨b, hSome, hBody⟩ := load_body_of_keeps hCarries hKeeps hMethod hLoad hHas m'.name
      obtain ⟨b', hBody', hSome'⟩ := hLoad'.body hHas
      rw [hSome, hSome', ← Except.ok.inj (hBody.symm.trans hBody')]

/-- There are two cases. A method that was not redirected has the same row and the same bytes, and
the other one is known to have been rewritten. -/
theorem becomes_of_load (hCarries : s.Carries s' [r] pool) (hKeeps : image.Keeps image' methods)
    (hMethod : methods m) (hRows : s.tables.rows .methodDef ≤ TableStream.maxRows)
    (hTarget : r.row ≤ TableStream.maxRows) (hLoad : load image s row = .ok m)
    (hLoad' : load image' s' row = .ok m')
    (hRewritten : row = r.row → ∃ b b', m.body = some b ∧ m'.body = some b' ∧ R b b') :
    m.Becomes (Token.ofParts Token.methodDefTable r.row) R m' := by
  obtain ⟨columns, hFrom⟩ := loadedFrom_of_load hLoad
  obtain ⟨columns', hFrom'⟩ := loadedFrom_of_load hLoad'
  have hColumns := hCarries.method hFrom.columns_eq
  rw [hFrom'.columns_eq] at hColumns
  obtain rfl := Except.ok.inj hColumns
  have hName := hCarries.name _ _ hFrom.name_eq
  rw [hFrom'.name_eq] at hName
  refine ⟨by rw [hFrom.token_eq, hFrom'.token_eq], Except.ok.inj hName,
    by rw [hFrom.flags_eq, hFrom'.flags_eq], by rw [hFrom.implFlags_eq, hFrom'.implFlags_eq],
    fun hOther => ?_, fun hSame => hRewritten ?_⟩
  · refine body_of_load hCarries hKeeps hMethod (fun hSame => ?_) hFrom hFrom'
    rw [hFrom.token_eq, hSame] at hOther
    exact hOther rfl
  · rw [← hFrom.row_token hRows, hSame, Token.row_ofParts]
    exact Nat.mod_eq_of_lt (Nat.lt_succ_of_le hTarget)

end MethodDef

/-- The other type is the same one, with the same methods in the same order. -/
structure TypeDef.Becomes (target : Token) (R : MethodBody → MethodBody → Prop) (t t' : TypeDef) :
    Prop where
  token_eq : t'.token = t.token
  namespaceName_eq : t'.namespaceName = t.namespaceName
  name_eq : t'.name = t.name
  nested_eq : t'.nested = t.nested
  methods : List.Forall₂ (MethodDef.Becomes target R) t.methods t'.methods

namespace TypeDef

variable {r : Redirect} {pool : LiteralPool} {R : MethodBody → MethodBody → Prop}
  {types types' : List TypeDef}

/-- A type is loaded from its own row, with the one after it telling where its methods end. -/
theorem loadAll_cons_eq_ok {nested : List Nat} {columns : TypeDefRow} {rest : List TypeDefRow}
    (hLoad : loadAll image s nested row (columns :: rest) = .ok types) :
    ∃ t others, types = t :: others ∧ loadAll image s nested (row + 1) rest = .ok others ∧
      s.names.get columns.namespaceName = .ok t.namespaceName ∧
      s.names.get columns.name = .ok t.name ∧
      t.token = Token.ofParts Token.typeDefTable row ∧ t.nested = nested.contains row ∧
      (methodRows (s.tables.rows .methodDef) columns rest.head?).mapM (MethodDef.load image s)
        = .ok t.methods := by
  obtain ⟨methods, hMethods, hLoad⟩ := Except.bind_eq_ok.1 hLoad
  obtain ⟨namespaceName, hNamespace, hLoad⟩ := Except.bind_eq_ok.1 hLoad
  obtain ⟨name, hName, hLoad⟩ := Except.bind_eq_ok.1 hLoad
  obtain ⟨others, hOthers, hLoad⟩ := Except.bind_eq_ok.1 hLoad
  cases hLoad
  exact ⟨_, others, rfl, hOthers, hNamespace, hName, rfl, rfl, hMethods⟩

/-- By induction on the types. Both modules take them from the same rows. -/
theorem becomes_of_loadAll {nested : List Nat} {rows : List TypeDefRow}
    (hCarries : s.Carries s' [r] pool)
    (hKeeps : image.Keeps image' fun m => ∃ t ∈ types, m ∈ t.methods)
    (hRows : s.tables.rows .methodDef ≤ TableStream.maxRows)
    (hTarget : r.row ≤ TableStream.maxRows)
    (hLoad : loadAll image s nested row rows = .ok types)
    (hLoad' : loadAll image' s' nested row rows = .ok types')
    (hRewritten : ∀ m m', MethodDef.load image s r.row = .ok m →
      MethodDef.load image' s' r.row = .ok m' →
        ∃ b b', m.body = some b ∧ m'.body = some b' ∧ R b b') :
    List.Forall₂ (Becomes (Token.ofParts Token.methodDefTable r.row) R) types types' := by
  induction rows generalizing row types types' with
  | nil =>
      cases hLoad
      cases hLoad'
      exact .nil
  | cons columns rest ih =>
      obtain ⟨t, others, rfl, hOthers, hNamespace, hName, hToken, hNested, hMethods⟩ :=
        loadAll_cons_eq_ok hLoad
      obtain ⟨t', others', rfl, hOthers', hNamespace', hName', hToken', hNested', hMethods'⟩ :=
        loadAll_cons_eq_ok hLoad'
      refine .cons ⟨by rw [hToken, hToken'], ?_, ?_, by rw [hNested, hNested'], ?_⟩
        (ih ⟨hKeeps.offsetOf, hKeeps.size_le, ?_⟩ hOthers hOthers')
      · exact Except.ok.inj (hNamespace'.symm.trans (hCarries.name _ _ hNamespace))
      · exact Except.ok.inj (hName'.symm.trans (hCarries.name _ _ hName))
      · rw [hCarries.rows_eq] at hMethods'
        refine forall₂_of_common (Except.mapM_eq_ok.1 hMethods) (Except.mapM_eq_ok.1 hMethods')
          fun i m hMem m' hOne hOne' => ?_
        refine MethodDef.becomes_of_load hCarries hKeeps ⟨t, List.mem_cons_self .., hMem⟩ hRows
          hTarget hOne hOne' ?_
        rintro rfl
        exact hRewritten m m' hOne hOne'
      · rintro m ⟨other, hOther, hMem⟩
        exact hKeeps.bodies m ⟨other, List.mem_cons_of_mem _ hOther, hMem⟩

/-- A method of a loaded type was loaded from some row. -/
theorem load_of_mem_loadAll {nested : List Nat} {rows : List TypeDefRow}
    (hLoad : loadAll image s nested row rows = .ok types) {t : TypeDef} (hType : t ∈ types)
    {m : MethodDef} (hMethod : m ∈ t.methods) : ∃ i, MethodDef.load image s i = .ok m := by
  induction rows generalizing row types with
  | nil =>
      cases hLoad
      cases hType
  | cons columns rest ih =>
      obtain ⟨t', others, rfl, hOthers, _, _, _, _, hMethods⟩ := loadAll_cons_eq_ok hLoad
      rcases List.mem_cons.1 hType with rfl | hType
      · obtain ⟨i, _, hOne⟩ := forall₂_mem_right (Except.mapM_eq_ok.1 hMethods) hMethod
        exact ⟨i, hOne⟩
      · exact ih hOthers hType

end TypeDef

namespace Module

variable {m m' : Module}

/-- The parts of a module that was loaded. -/
structure LoadedFrom (image : Image) (md : Metadata) (s : Streams) (m : Module) : Prop where
  metadata : Metadata.locate image = .ok md
  streams : Streams.ofMetadata md = .ok s
  name : loadName s = .ok m.name
  no_assembly : s.tables.rows .assembly = 0 → m.assembly = none
  assembly : s.tables.rows .assembly ≠ 0 → ∃ a, loadAssembly s = .ok a ∧ m.assembly = some a
  types : ∃ nested types, s.tables.getAll NestedClassRow = .ok nested ∧
    s.tables.getAll TypeDefRow = .ok types ∧
    TypeDef.loadAll image s (nested.map (·.nested)) 1 types = .ok m.types
  image_eq : m.image = some image

theorem loadedFrom_of_ofImage (hLoad : ofImage image = .ok m) :
    ∃ md s, m.LoadedFrom image md s := by
  obtain ⟨md, hMd, hLoad⟩ := Except.bind_eq_ok.1 hLoad
  obtain ⟨s, hStreams, hLoad⟩ := Except.bind_eq_ok.1 hLoad
  obtain ⟨name, hName, hLoad⟩ := Except.bind_eq_ok.1 hLoad
  refine ⟨md, s, ?_⟩
  dsimp only at hLoad
  split at hLoad
  · rename_i hNone
    obtain ⟨_, hPure, hLoad⟩ := Except.bind_eq_ok.1 hLoad
    cases hPure
    obtain ⟨nested, hNested, hLoad⟩ := Except.bind_eq_ok.1 hLoad
    obtain ⟨rows, hRows, hLoad⟩ := Except.bind_eq_ok.1 hLoad
    obtain ⟨types, hTypes, hLoad⟩ := Except.bind_eq_ok.1 hLoad
    cases hLoad
    exact ⟨hMd, hStreams, hName, fun _ => rfl, fun hSome => (hSome hNone).elim,
      ⟨nested, rows, hNested, hRows, hTypes⟩, rfl⟩
  · rename_i hSome
    obtain ⟨assembly, hAssembly, hLoad⟩ := Except.bind_eq_ok.1 hLoad
    obtain ⟨a, hLoadAssembly, rfl⟩ := Except.map_eq_ok.1 hAssembly
    obtain ⟨nested, hNested, hLoad⟩ := Except.bind_eq_ok.1 hLoad
    obtain ⟨rows, hRows, hLoad⟩ := Except.bind_eq_ok.1 hLoad
    obtain ⟨types, hTypes, hLoad⟩ := Except.bind_eq_ok.1 hLoad
    cases hLoad
    exact ⟨hMd, hStreams, hName, fun hNone => (hSome hNone).elim,
      fun _ => ⟨a, hLoadAssembly, rfl⟩, ⟨nested, rows, hNested, hRows, hTypes⟩, rfl⟩

theorem LoadedFrom.rows_le {md : Metadata} (hLoad : m.LoadedFrom image md s) (t : TableId) :
    s.tables.rows t ≤ TableStream.maxRows := by
  obtain ⟨⟨data, _, hTables⟩, _⟩ := Streams.ofMetadata_eq_ok hLoad.streams
  exact TableStream.rows_le_of_ofBytes hTables t

/-- The other module is the same one, up to the body of the method of a token. -/
structure Becomes (target : Token) (R : MethodBody → MethodBody → Prop) (m m' : Module) :
    Prop where
  name_eq : m'.name = m.name
  assembly_eq : m'.assembly = m.assembly
  types : List.Forall₂ (TypeDef.Becomes target R) m.types m'.types

theorem Becomes.exists_rewritten {target : Token} {R : MethodBody → MethodBody → Prop}
    {m m' : Module} (h : m.Becomes target R m') {t : TypeDef} (hType : t ∈ m.types)
    {method : MethodDef} (hMethod : method ∈ t.methods) (hToken : method.token = target) :
    ∃ t' ∈ m'.types, ∃ method' ∈ t'.methods, ∃ b b', method.body = some b ∧
      method'.body = some b' ∧ R b b' := by
  obtain ⟨i, hi⟩ := List.getElem?_of_mem hType
  obtain ⟨t', hType', hSameType⟩ := forall₂_getElem? h.types hi
  obtain ⟨j, hj⟩ := List.getElem?_of_mem hMethod
  obtain ⟨method', hMethod', hSameMethod⟩ := forall₂_getElem? hSameType.methods hj
  exact ⟨t', List.mem_of_getElem? hType', method', List.mem_of_getElem? hMethod',
    hSameMethod.rewritten hToken⟩

variable {r : Redirect} {pool : LiteralPool} {R : MethodBody → MethodBody → Prop}
  {md md' : Metadata}

/-- Put together from what is known of the types, of the name and of the assembly. -/
theorem becomes_of_loadedFrom (hCarries : s.Carries s' [r] pool)
    (hKeeps : image.Keeps image' fun method => ∃ t ∈ m.types, method ∈ t.methods)
    (hRows : s.tables.rows .methodDef ≤ TableStream.maxRows)
    (hTarget : r.row ≤ TableStream.maxRows) (hLoad : m.LoadedFrom image md s)
    (hLoad' : m'.LoadedFrom image' md' s')
    (hRewritten : ∀ m m', MethodDef.load image s r.row = .ok m →
      MethodDef.load image' s' r.row = .ok m' →
        ∃ b b', m.body = some b ∧ m'.body = some b' ∧ R b b') :
    m.Becomes (Token.ofParts Token.methodDefTable r.row) R m' := by
  refine ⟨?_, ?_, ?_⟩
  · exact Except.ok.inj (hLoad'.name.symm.trans (hCarries.loadName hLoad.name))
  · have hCount := hCarries.rows_eq .assembly
    by_cases hNone : s.tables.rows .assembly = 0
    · rw [hLoad.no_assembly hNone, hLoad'.no_assembly (hCount.trans hNone)]
    · obtain ⟨a, hLoadAssembly, hAssembly⟩ := hLoad.assembly hNone
      obtain ⟨a', hLoadAssembly', hAssembly'⟩ := hLoad'.assembly (by rwa [hCount])
      rw [hAssembly, hAssembly',
        Except.ok.inj (hLoadAssembly'.symm.trans (hCarries.loadAssembly hLoadAssembly))]
  · obtain ⟨nested, rows, hNested, hTypeRows, hTypes⟩ := hLoad.types
    obtain ⟨nested', rows', hNested', hTypeRows', hTypes'⟩ := hLoad'.types
    rw [hCarries.getAll_eq (by decide)] at hNested' hTypeRows'
    obtain rfl := Except.ok.inj (hNested.symm.trans hNested')
    obtain rfl := Except.ok.inj (hTypeRows.symm.trans hTypeRows')
    exact TypeDef.becomes_of_loadAll hCarries hKeeps hRows hTarget hTypes hTypes' hRewritten

end Module

end IlSplice
