import IlSplice.Patch
import IlSplice.Proofs.Patch.Plan

/-! The target of a patch, and the module in which it is the only modified method. -/

namespace IlSplice

/-- One member that passes a filter is the only one, if no other did before. -/
theorem filter_set_of_none {α : Type} {p : α → Bool} {xs : List α} (hNone : ∀ x ∈ xs, p x = false)
    {i : Nat} {new : α} (hi : i < xs.length) (hNew : p new = true) :
    (xs.set i new).filter p = [new] := by
  induction xs generalizing i with
  | nil => cases hi
  | cons x rest ih =>
      rw [List.forall_mem_cons] at hNone
      cases i with
      | zero =>
          rw [List.set_cons_zero, List.filter_cons_of_pos hNew,
            List.filter_eq_nil_iff.2 fun y hy => by simp [hNone.2 y hy]]
      | succ i =>
          rw [List.set_cons_succ, List.filter_cons_of_neg (by simp [hNone.1]),
            ih hNone.2 (Nat.lt_of_succ_lt_succ hi)]

theorem flatMap_modify_of_none {α β : Type} {g : α → List β} {xs : List α}
    (hNone : ∀ x ∈ xs, g x = []) {i : Nat} {x : α} (f : α → α) (hi : xs[i]? = some x) :
    (xs.modify i f).flatMap g = g (f x) := by
  induction xs generalizing i with
  | nil => cases hi
  | cons y rest ih =>
      rw [List.forall_mem_cons] at hNone
      cases i with
      | zero =>
          cases hi
          rw [List.modify_zero_cons, List.flatMap_cons, List.flatMap_eq_nil_iff.2 hNone.2,
            List.append_nil]
      | succ i =>
          rw [List.modify_succ_cons, List.flatMap_cons, hNone.1, List.nil_append]
          exact ih hNone.2 hi

namespace Module

variable {m : Module} {t : TypeDef} {i j : Nat}

/-- A method that is put into a module without modified methods is the only one. -/
theorem modifiedMethods_setMethod (new : MethodDef)
    (hNone : ∀ t ∈ m.types, ∀ method ∈ t.methods, method.modified = false)
    (hType : m.types[i]? = some t) (hMethod : j < t.methods.length) (hNew : new.modified = true) :
    (m.setMethod i j new).modifiedMethods = [new] := by
  refine Eq.trans (flatMap_modify_of_none (fun t hMem => ?_) _ hType) ?_
  · exact List.filter_eq_nil_iff.2 fun method hMethod => by simp [hNone t hMem method hMethod]
  · exact filter_set_of_none (hNone t (List.mem_of_getElem? hType)) hMethod hNew

end Module

namespace Patch

variable {config : Config} {m m' : Module} {target : Target} {report : Report}

/-- The method of the target with another body. -/
def Target.changed (target : Target) (body : MethodBody) : MethodDef :=
  { target.method with body := some body, modified := true }

/-- The target is where it says, and has the names that were asked for. -/
structure Target.FoundIn (target : Target) (config : Config) (m : Module) : Prop where
  type_eq : m.types[target.typeIndex]? = some target.type
  method_eq : target.type.methods[target.methodIndex]? = some target.method
  body_eq : target.method.body = some target.body
  isNamed : target.type.isNamed config.typeName = true
  name_eq : target.method.name = config.methodName

/-- A target that is found is where it says, and has a body. -/
theorem Target.foundIn_of_find (hFind : Target.find config m = .ok target) :
    target.FoundIn config m := by
  unfold Target.find at hFind
  split at hFind
  · rename_i t typeIndex hTypes
    split at hFind
    · rename_i found hMethods
      cases hFind
      have hType : (t, typeIndex) ∈ Target.types m config.typeName := by
        rw [hTypes]
        exact List.mem_singleton_self _
      obtain ⟨hAt, hNamed⟩ := List.mem_filter.1 hType
      have hMethod : target ∈ Target.methods t typeIndex config.methodName := by
        rw [hMethods]
        exact List.mem_singleton_self _
      obtain ⟨⟨method, methodIndex⟩, hMem, hSome⟩ := List.mem_filterMap.1 hMethod
      dsimp only at hSome
      split at hSome
      · rename_i hName
        obtain ⟨body, hBody, rfl⟩ := Option.map_eq_some_iff.1 hSome
        exact ⟨List.mem_zipIdx_iff_getElem?.1 hAt, List.mem_zipIdx_iff_getElem?.1 hMem, hBody,
          hNamed, hName⟩
      · cases hSome
    · cases hFind
  · cases hFind

end Patch

namespace Module

open Patch

variable {config : Config} {m m' : Module} {report : Report}

/-- A change of the body is put back in its place, and the method is marked. -/
theorem editTarget_eq_ok {α : Type} {target : Target} {edit : Edit MethodBody α} {a : α}
    (hEdit : editTarget target edit m = .ok a m') :
    ∃ body, edit target.body = .ok a body ∧
      m' = m.setMethod target.typeIndex target.methodIndex (target.changed body) := by
  unfold editTarget at hEdit
  split at hEdit
  · rename_i value body hBody
    cases hEdit
    exact ⟨body, hBody, rfl⟩
  · cases hEdit

/-- The steps of a patch. -/
theorem steps_of_patch_eq_ok (hPatch : patch config m = .ok report m') :
    ∃ (target : Target) (plan : Plan) (outcome : Outcome) (body : MethodBody),
      Target.find config m = .ok target ∧ target.plan config = .ok plan ∧
      plan.apply target.body = .ok outcome body ∧
      m' = m.setMethod target.typeIndex target.methodIndex (target.changed body) ∧
      report = ⟨target.type.fullName, target.method.name, target.method.token, outcome⟩ := by
  obtain ⟨target, _, hFind, hPatch⟩ := Edit.bind_eq_ok.1 hPatch
  obtain ⟨hTarget, rfl⟩ := Edit.check_eq_ok.1 hFind
  obtain ⟨plan, _, hCheck, hPatch⟩ := Edit.bind_eq_ok.1 hPatch
  obtain ⟨hPlan, rfl⟩ := Edit.check_eq_ok.1 hCheck
  obtain ⟨outcome, _, hEdit, hPatch⟩ := Edit.bind_eq_ok.1 hPatch
  obtain ⟨hReport, rfl⟩ := Edit.pure_eq_ok.1 hPatch
  obtain ⟨body, hApply, hModule⟩ := editTarget_eq_ok hEdit
  exact ⟨target, plan, outcome, body, hTarget, hPlan, hApply, hModule, hReport.symm⟩

/-- A patch applies its plan to the target, and to nothing else. -/
theorem patch_eq_ok (hPatch : patch config m = .ok report m') :
    ∃ (target : Target) (anchors : Anchors) (outcome : Outcome) (body : MethodBody),
      target.FoundIn config m ∧
      Anchors.locate target.body.listing config.injectionMember config.sizeMember = .ok anchors ∧
      (Plan.mk config.entries anchors).apply target.body = .ok outcome body ∧
      m' = m.setMethod target.typeIndex target.methodIndex (target.changed body) ∧
      report = ⟨target.type.fullName, target.method.name, target.method.token, outcome⟩ := by
  obtain ⟨target, plan, outcome, body, hTarget, hPlan, hApply, hModule, hReport⟩ :=
    steps_of_patch_eq_ok hPatch
  obtain ⟨anchors, hAnchors, hPlan⟩ := Except.bind_eq_ok.1 hPlan
  obtain ⟨_, _, hPlan⟩ := Except.bind_eq_ok.1 hPlan
  cases hPlan
  exact ⟨target, anchors, outcome, body, Target.foundIn_of_find hTarget, hAnchors, hApply, hModule,
    hReport⟩

end Module

end IlSplice
