import IlSplice.Proofs.Body.ControlFlow
import IlSplice.Proofs.Patch.Target

/-! The shape that a patch can deal with. A lookup finds something exactly if there is one thing
only that it could mean, and everything that is asked of the target is a property of its body. -/

namespace IlSplice

/-- A list without repetitions has one member exactly if membership says so. Lookups compare with
such lists. -/
theorem eq_singleton_iff {α : Type} {xs : List α} {a : α} (hDistinct : xs.Nodup) :
    xs = [a] ↔ ∀ x, x ∈ xs ↔ x = a := by
  rw [← List.perm_singleton, List.perm_ext_iff_of_nodup hDistinct (List.nodup_singleton a)]
  simp only [List.mem_singleton]

theorem nodup_zipIdx {α : Type} (xs : List α) : xs.zipIdx.Nodup := by
  refine List.Nodup.of_map Prod.snd ?_
  rw [List.zipIdx_map_snd]
  exact List.nodup_range'

/-- A plain call of a method of that name. -/
def Instruction.Calls (i : Instruction) (member : String) : Prop :=
  i.opcode = .call ∧ ∃ token, i.operand = .method ⟨token, member⟩

/-- The test for a call and the relation say the same. -/
theorem Instruction.isCallTo_iff {i : Instruction} {member : String} :
    i.isCallTo member = true ↔ i.Calls member := by
  rw [isCallTo, Bool.and_eq_true, beq_iff_eq, Calls]
  refine and_congr_right fun _ => ?_
  unfold method?
  split
  · rename_i callee hOperand
    simp only [Option.any_some, beq_iff_eq, hOperand, Operand.method.injEq]
    exact ⟨fun hName => ⟨callee.token, by rw [← hName]⟩, fun ⟨_, hSame⟩ => by rw [hSame]⟩
  · rename_i hOther
    simp only [Option.any_none, Bool.false_eq_true, false_iff, not_exists]
    exact fun token hSame => hOther _ hSame

/-- The instruction calls a method of that name, and no other one does. -/
def Listing.OnlyCall (l : Listing) (member : String) (h : Handle) : Prop :=
  ∀ h', (∃ i, l.get? h' = some i ∧ i.Calls member) ↔ h' = h

/-- A type is asked for by its name, with or without namespace. Nested types are left out. -/
theorem TypeDef.isNamed_iff {t : TypeDef} {name : String} :
    t.isNamed name = true ↔ t.nested = false ∧ (t.name = name ∨ t.fullName = name) := by
  simp [isNamed]

namespace Patch

namespace Anchors

variable {l : Listing} {member : String} {h : Handle}

theorem mem_calls : h ∈ calls l member ↔ ∃ i, l.get? h = some i ∧ i.Calls member := by
  simp only [calls, List.mem_map, List.mem_filter, Instruction.isCallTo_iff]
  constructor
  · rintro ⟨⟨h', i⟩, ⟨hMem, hCall⟩, rfl⟩
    exact ⟨i, Listing.mem_entries.1 hMem, hCall⟩
  · rintro ⟨i, hGet, hCall⟩
    exact ⟨(h, i), ⟨Listing.mem_entries.2 hGet, hCall⟩, rfl⟩

/-- Every call is found once. -/
theorem nodup_calls (l : Listing) (member : String) : (calls l member).Nodup := by
  refine List.Nodup.sublist (List.Sublist.map Prod.fst List.filter_sublist) ?_
  rw [Listing.map_fst_entries]
  exact l.nodup_order

/-- A call is found exactly if it is the only one. Two calls of one member are as bad as none. -/
theorem uniqueCall_eq_ok : uniqueCall l member = .ok h ↔ l.OnlyCall member h := by
  have hOnly : calls l member = [h] ↔ l.OnlyCall member h := by
    rw [eq_singleton_iff (nodup_calls l member)]
    exact forall_congr' fun h' => iff_congr mem_calls Iff.rfl
  rw [← hOnly]
  unfold uniqueCall
  split
  · rename_i handle hCalls
    rw [hCalls, Except.ok.injEq, List.cons.injEq, and_iff_left rfl]
  · rename_i hNone
    simp [hNone]
  · rename_i several hNotOne _
    exact ⟨fun hFault => (nomatch hFault), fun hOne => (hNotOne h hOne).elim⟩

/-- The anchors are the only injection call and the instruction behind the only size call. -/
theorem locate_eq_ok {injectionMember sizeMember : String} {anchors : Anchors} :
    locate l injectionMember sizeMember = .ok anchors ↔
      l.OnlyCall injectionMember anchors.injection ∧
        ∃ call, l.OnlyCall sizeMember call ∧ l.next? call = some anchors.size := by
  simp only [← uniqueCall_eq_ok]
  constructor
  · intro hLocate
    obtain ⟨injection, hInjection, hLocate⟩ := Except.bind_eq_ok.1 hLocate
    obtain ⟨call, hCall, hLocate⟩ := Except.bind_eq_ok.1 hLocate
    split at hLocate
    · rename_i size hNext
      cases hLocate
      exact ⟨hInjection, call, hCall, hNext⟩
    · cases hLocate
  · rintro ⟨hInjection, call, hCall, hNext⟩
    refine Except.bind_eq_ok.2 ⟨_, hInjection, Except.bind_eq_ok.2 ⟨call, hCall, ?_⟩⟩
    rw [hNext]
    rfl

end Anchors

namespace Target

variable {config : Config} {m : Module} {target : Target}

/-- No type but that of the target has the name that was asked for, and in it no other method with
a body. -/
structure Only (target : Target) (config : Config) (m : Module) : Prop where
  type_eq : m.types[target.typeIndex]? = some target.type
  type_iff : ∀ i t, m.types[i]? = some t →
    (t.nested = false ∧ (t.name = config.typeName ∨ t.fullName = config.typeName) ↔
      i = target.typeIndex)
  method_eq : target.type.methods[target.methodIndex]? = some target.method
  method_iff : ∀ j method, target.type.methods[j]? = some method →
    (method.name = config.methodName ∧ method.body.isSome ↔ j = target.methodIndex)
  body_eq : target.method.body = some target.body

theorem mem_types {name : String} {t : TypeDef} {i : Nat} : (t, i) ∈ types m name ↔
    m.types[i]? = some t ∧ t.nested = false ∧ (t.name = name ∨ t.fullName = name) := by
  rw [types, List.mem_filter, List.mem_zipIdx_iff_getElem?, TypeDef.isNamed_iff]

/-- The methods of that name in a type, as far as they have a body. -/
theorem mem_methods {t : TypeDef} {i : Nat} {name : String} : target ∈ methods t i name ↔
    (target.typeIndex = i ∧ target.type = t) ∧
      t.methods[target.methodIndex]? = some target.method ∧ target.method.name = name ∧
      target.method.body = some target.body := by
  simp only [methods, List.mem_filterMap, Prod.exists, List.mem_zipIdx_iff_getElem?]
  constructor
  · rintro ⟨method, j, hGet, hSome⟩
    split at hSome
    · rename_i hName
      obtain ⟨body, hBody, rfl⟩ := Option.map_eq_some_iff.1 hSome
      exact ⟨⟨rfl, rfl⟩, hGet, hName, hBody⟩
    · cases hSome
  · rintro ⟨⟨rfl, rfl⟩, hGet, hName, hBody⟩
    exact ⟨_, _, hGet, by rw [if_pos hName, hBody]; rfl⟩

theorem nodup_types (m : Module) (name : String) : (types m name).Nodup :=
  (nodup_zipIdx m.types).filter _

theorem nodup_methods (t : TypeDef) (i : Nat) (name : String) : (methods t i name).Nodup := by
  refine (nodup_zipIdx t.methods).filterMap ?_
  rintro ⟨method, j⟩ ⟨method', j'⟩ found hFound hFound'
  simp only [Option.mem_def, Option.ite_none_right_eq_some, Option.map_eq_some_iff]
    at hFound hFound'
  obtain ⟨_, _, _, rfl⟩ := hFound
  obtain ⟨_, _, _, hSame⟩ := hFound'
  cases hSame
  rfl

/-- A target is found exactly if both searches leave one candidate. -/
theorem find_eq_ok_iff_lists : find config m = .ok target ↔
    types m config.typeName = [(target.type, target.typeIndex)] ∧
      methods target.type target.typeIndex config.methodName = [target] := by
  unfold find
  split
  · rename_i t i hTypes
    rw [hTypes]
    split
    · rename_i found hMethods
      have hFound : found ∈ methods t i config.methodName := by
        rw [hMethods]
        exact List.mem_singleton_self _
      obtain ⟨⟨rfl, rfl⟩, _⟩ := mem_methods.1 hFound
      constructor
      · intro hOk
        cases hOk
        exact ⟨rfl, hMethods⟩
      · rintro ⟨hSame, hOne⟩
        obtain ⟨hType, hIndex⟩ := Prod.mk.inj (List.singleton_inj.1 hSame)
        rw [← hType, ← hIndex, hMethods] at hOne
        cases hOne
        rfl
    · rename_i hNotOne
      refine ⟨fun hFault => (nomatch hFault), ?_⟩
      rintro ⟨hSame, hOne⟩
      cases hSame
      exact (hNotOne _ hOne).elim
  · rename_i hNotOne
    exact ⟨fun hFault => (nomatch hFault), fun ⟨hOne, _⟩ => (hNotOne _ _ hOne).elim⟩

/-- The target is found exactly if it is the only thing that the names could mean. -/
theorem find_eq_ok : find config m = .ok target ↔ target.Only config m := by
  rw [find_eq_ok_iff_lists, eq_singleton_iff (nodup_types ..),
    eq_singleton_iff (nodup_methods ..)]
  constructor
  · rintro ⟨hTypes, hMethods⟩
    obtain ⟨hType, hNamed⟩ := mem_types.1 ((hTypes _).2 rfl)
    obtain ⟨_, hMethod, hName, hBody⟩ := mem_methods.1 ((hMethods _).2 rfl)
    refine ⟨hType, fun i t hGet => ⟨fun hOther => ?_, ?_⟩, hMethod,
      fun j method hGet => ⟨fun ⟨hOther, hSome⟩ => ?_, ?_⟩, hBody⟩
    · exact congrArg Prod.snd ((hTypes (t, i)).1 (mem_types.2 ⟨hGet, hOther⟩))
    · rintro rfl
      obtain rfl := Option.some.inj (hType.symm.trans hGet)
      exact hNamed
    · obtain ⟨body, hBody'⟩ := Option.isSome_iff_exists.1 hSome
      exact congrArg Target.methodIndex
        ((hMethods ⟨_, _, j, method, body⟩).1 (mem_methods.2 ⟨⟨rfl, rfl⟩, hGet, hOther, hBody'⟩))
    · rintro rfl
      obtain rfl := Option.some.inj (hMethod.symm.trans hGet)
      exact ⟨hName, by rw [hBody]; rfl⟩
  · intro hOnly
    constructor
    · rintro ⟨t, i⟩
      rw [mem_types, Prod.mk.injEq]
      constructor
      · rintro ⟨hGet, hNamed⟩
        obtain rfl := (hOnly.type_iff i t hGet).1 hNamed
        exact ⟨Option.some.inj (hGet.symm.trans hOnly.type_eq), rfl⟩
      · rintro ⟨rfl, rfl⟩
        exact ⟨hOnly.type_eq, (hOnly.type_iff _ _ hOnly.type_eq).2 rfl⟩
    · intro other
      rw [mem_methods]
      constructor
      · obtain ⟨i, t, j, method, body⟩ := other
        rintro ⟨⟨rfl, rfl⟩, hGet, hName, hBody⟩
        obtain rfl := (hOnly.method_iff j method hGet).1
          ⟨hName, Option.isSome_iff_exists.2 ⟨body, hBody⟩⟩
        obtain rfl := Option.some.inj (hOnly.method_eq.symm.trans hGet)
        obtain rfl := Option.some.inj (hOnly.body_eq.symm.trans hBody)
        rfl
      · rintro rfl
        exact ⟨⟨rfl, rfl⟩, hOnly.method_eq, ((hOnly.method_iff _ _ hOnly.method_eq).2 rfl).1,
          hOnly.body_eq⟩

end Target

/-- What the body of the target has to be like, whatever the entries are. -/
structure Shape (config : Config) (m : Module) (target : Target) (anchors : Anchors)
    (previous : Int32) : Prop where
  only : target.Only config m
  injection : target.body.listing.OnlyCall config.injectionMember anchors.injection
  sizeCall : ∃ call, target.body.listing.OnlyCall config.sizeMember call ∧
    target.body.listing.next? call = some anchors.size
  sizeLoad : ∃ i, target.body.listing.get? anchors.size = some i ∧ i.constant? = some previous
  unreferenced : target.body.Unreferenced anchors.injection

/-- The shape is what the three steps in front of a change ask for. -/
theorem shape_iff {config : Config} {m : Module} {target : Target} {anchors : Anchors}
    {previous : Int32} : Shape config m target anchors previous ↔
      Target.find config m = .ok target ∧
      Anchors.locate target.body.listing config.injectionMember config.sizeMember = .ok anchors ∧
      (Plan.mk config.entries anchors).check target.body = .ok previous := by
  rw [Target.find_eq_ok, Anchors.locate_eq_ok, Plan.check_eq_ok,
    MethodBody.isReferenced_eq_false]
  constructor
  · rintro ⟨hOnly, hInjection, hSizeCall, hSizeLoad, hUnreferenced⟩
    obtain ⟨i, hGet, _⟩ := (hInjection anchors.injection).2 rfl
    exact ⟨hOnly, ⟨hInjection, hSizeCall⟩, hSizeLoad,
      ⟨_, Listing.position?_of_lt (Array.getElem?_eq_some_iff.1 hGet).1⟩, hUnreferenced⟩
  · rintro ⟨hOnly, ⟨hInjection, hSizeCall⟩, hSizeLoad, _, hUnreferenced⟩
    exact ⟨hOnly, hInjection, hSizeCall, hSizeLoad, hUnreferenced⟩

/-- A plan is made exactly if the anchors are found and the body passes its checks. -/
theorem Target.plan_eq_ok {config : Config} {target : Target} {plan : Plan} :
    target.plan config = .ok plan ↔ plan.entries = config.entries ∧
      Anchors.locate target.body.listing config.injectionMember config.sizeMember
        = .ok plan.anchors ∧
      ∃ previous, plan.check target.body = .ok previous := by
  constructor
  · intro hPlan
    obtain ⟨anchors, hAnchors, hPlan⟩ := Except.bind_eq_ok.1 hPlan
    obtain ⟨previous, hCheck, hPlan⟩ := Except.bind_eq_ok.1 hPlan
    cases hPlan
    exact ⟨rfl, hAnchors, previous, hCheck⟩
  · obtain ⟨entries, anchors⟩ := plan
    rintro ⟨rfl, hAnchors, previous, hCheck⟩
    exact Except.bind_eq_ok.2 ⟨anchors, hAnchors, Except.bind_eq_ok.2 ⟨previous, hCheck, rfl⟩⟩

end Patch

end IlSplice
