import IlSplice.Proofs.Patch.Shape

/-! What a patch does to a module. It succeeds exactly on the shape that it can deal with, and
changes the target only. If it fails everything is what it was, except that two of its bounds are
looked at too late: the target then counts as modified. -/

namespace IlSplice

namespace Module

open Patch

variable {m m' : Module} {t : TypeDef} {method : MethodDef} {i j k : Nat} {config : Config}
  {target : Target} {anchors : Anchors} {previous : Int32} {report : Report} {fault : Fault}

theorem types_setMethod_ne (new : MethodDef) (hOther : k ≠ i) :
    (m.setMethod i j new).types[k]? = m.types[k]? :=
  List.getElem?_modify_ne _ _ hOther.symm

theorem types_setMethod (new : MethodDef) (hType : m.types[i]? = some t) :
    (m.setMethod i j new).types[i]? = some { t with methods := t.methods.set j new } := by
  rw [setMethod, List.getElem?_modify_eq, hType]
  rfl

/-- A method in its own place changes nothing. -/
theorem setMethod_self (hType : m.types[i]? = some t) (hMethod : t.methods[j]? = some method) :
    m.setMethod i j method = m := by
  have hSame : ({ t with methods := t.methods.set j method } : TypeDef) = t := by
    obtain ⟨hInside, rfl⟩ := List.getElem?_eq_some_iff.1 hMethod
    rw [List.set_getElem_self]
  have hTypes : (m.setMethod i j method).types = m.types := by
    apply List.ext_getElem?
    intro k
    by_cases hOther : k = i
    · subst hOther
      rw [types_setMethod method hType, hType, hSame]
    · exact types_setMethod_ne method hOther
  exact congrArg (fun types => { m with types := types }) hTypes

/-- The second module is the first one, but the target has another body and counts as modified. -/
structure ChangedAt (m m' : Module) (target : Target) (body : MethodBody) : Prop where
  name_eq : m'.name = m.name
  assembly_eq : m'.assembly = m.assembly
  image_eq : m'.image = m.image
  length_eq : m'.types.length = m.types.length
  otherTypes : ∀ i, i ≠ target.typeIndex → m'.types[i]? = m.types[i]?
  type : ∃ methods, m'.types[target.typeIndex]? = some { target.type with methods := methods } ∧
    methods.length = target.type.methods.length ∧
    (∀ j, j ≠ target.methodIndex → methods[j]? = target.type.methods[j]?) ∧
    methods[target.methodIndex]? = some { target.method with body := some body, modified := true }

/-- Putting a changed method in its place changes nothing else in the module. -/
theorem changedAt_setMethod (body : MethodBody)
    (hType : m.types[target.typeIndex]? = some target.type)
    (hMethod : target.type.methods[target.methodIndex]? = some target.method) :
    m.ChangedAt (m.setMethod target.typeIndex target.methodIndex (target.changed body)) target
      body := by
  have hInside := (List.getElem?_eq_some_iff.1 hMethod).1
  refine ⟨rfl, rfl, rfl, List.length_modify .., fun i hOther => types_setMethod_ne _ hOther, ?_⟩
  refine ⟨_, types_setMethod _ hType, List.length_set .., fun j hOther => ?_, ?_⟩
  · exact List.getElem?_set_ne hOther.symm
  · exact List.getElem?_set_self hInside

/-- A patched module still has its image, and a method that differs from it. -/
theorem modifiedMethods_of_patch (hPatch : patch config m = .ok report m') :
    m'.image = m.image ∧ m'.modifiedMethods ≠ [] := by
  obtain ⟨target, _, _, body, hTarget, _, _, rfl, _⟩ := patch_eq_ok hPatch
  have hChanged := changedAt_setMethod body hTarget.type_eq hTarget.method_eq
  obtain ⟨methods, hType, _, _, hMethod⟩ := hChanged.type
  refine ⟨hChanged.image_eq, List.ne_nil_of_mem (a := target.changed body) ?_⟩
  refine List.mem_flatMap.2 ⟨_, List.mem_of_getElem? hType, ?_⟩
  exact List.mem_filter.2 ⟨List.mem_of_getElem? hMethod, rfl⟩

/-- The plan of a target of the right shape is applied, whatever comes of it. -/
theorem patch_eq_editTarget (hShape : Shape config m target anchors previous) :
    patch config m = (editTarget target (Plan.mk config.entries anchors).apply >>= fun outcome =>
      pure (Report.mk target.type.fullName target.method.name target.method.token outcome)) m := by
  obtain ⟨hFind, hLocate, hCheck⟩ := shape_iff.1 hShape
  have hPlan : target.plan config = .ok ⟨config.entries, anchors⟩ :=
    Target.plan_eq_ok.2 ⟨rfl, hLocate, previous, hCheck⟩
  simp only [patch, bind, EStateM.bind, Edit.check, hFind, hPlan]

/-- A shape that a patch can deal with is patched, if the new sizes fit. -/
theorem patch_of_fits (hShape : Shape config m target anchors previous)
    (hFits : (Plan.mk config.entries anchors).Fits target.body) :
    ∃ report m', patch config m = .ok report m' := by
  obtain ⟨_, _, hCheck⟩ := shape_iff.1 hShape
  obtain ⟨outcome, body, hApply⟩ := Plan.apply_of_fits hCheck hFits
  refine ⟨⟨target.type.fullName, target.method.name, target.method.token, outcome⟩,
    m.setMethod target.typeIndex target.methodIndex (target.changed body), ?_⟩
  rw [patch_eq_editTarget hShape]
  refine Edit.bind_eq_ok.2 ⟨outcome, _, ?_, rfl⟩
  rw [editTarget, hApply]
  rfl

/-- If they do not fit, the body is as it was, but the method was taken for a change by then and so
is marked. -/
theorem patch_of_not_fits (hShape : Shape config m target anchors previous)
    (hFits : ¬ (Plan.mk config.entries anchors).Fits target.body) :
    patch config m = .error (Plan.mk config.entries anchors).overrun
      (m.setMethod target.typeIndex target.methodIndex
        { target.method with modified := true }) := by
  obtain ⟨_, _, hCheck⟩ := shape_iff.1 hShape
  have hSame : target.changed target.body = { target.method with modified := true } := by
    rw [Target.changed, ← hShape.only.body_eq]
  rw [patch_eq_editTarget hShape, ← hSame]
  refine Edit.bind_eq_error.2 (.inl ?_)
  rw [editTarget, Plan.apply_of_not_fits hCheck hFits]
  rfl

/-- Without the right shape a patch stops before it takes the body for a change. -/
theorem exists_shape_of_patch_eq_error (hFailed : patch config m = .error fault m') :
    m' = m ∨ ∃ target anchors previous, Shape config m target anchors previous := by
  rcases Edit.bind_eq_error.1 hFailed with hNone | ⟨target, _, hFound, hFailed⟩
  · exact .inl (Edit.check_eq_error.1 hNone).2.symm
  obtain ⟨hFind, rfl⟩ := Edit.check_eq_ok.1 hFound
  rcases Edit.bind_eq_error.1 hFailed with hRefused | ⟨plan, _, hChecked, _⟩
  · exact .inl (Edit.check_eq_error.1 hRefused).2.symm
  obtain ⟨hPlan, rfl⟩ := Edit.check_eq_ok.1 hChecked
  obtain ⟨hEntries, hLocate, previous, hCheck⟩ := Target.plan_eq_ok.1 hPlan
  refine .inr ⟨target, plan.anchors, previous, shape_iff.2 ⟨hFind, hLocate, ?_⟩⟩
  rw [← hEntries]
  exact hCheck

/-- Conversely, a patch that succeeds had a shape that it could deal with. -/
theorem shape_of_patch_eq_ok (hPatch : patch config m = .ok report m') :
    ∃ target anchors previous outcome body, Shape config m target anchors previous ∧
      (Plan.mk config.entries anchors).apply target.body = .ok outcome body ∧
      m' = m.setMethod target.typeIndex target.methodIndex (target.changed body) ∧
      report = ⟨target.type.fullName, target.method.name, target.method.token, outcome⟩ := by
  obtain ⟨target, ⟨entries, anchors⟩, outcome, body, hFind, hPlan, hApply, hModule, hReport⟩ :=
    steps_of_patch_eq_ok hPatch
  obtain ⟨rfl, hLocate, previous, hCheck⟩ := Target.plan_eq_ok.1 hPlan
  exact ⟨target, anchors, previous, outcome, body, shape_iff.2 ⟨hFind, hLocate, hCheck⟩, hApply,
    hModule, hReport⟩

end Module

namespace Patch

/-- The report agrees with the body of the target before and after the patch. -/
structure Report.Agrees (report : Report) (config : Config) (target : Target) (anchors : Anchors)
    (previous : Int32) (body : MethodBody) : Prop where
  typeName_eq : report.typeName = target.type.fullName
  methodName_eq : report.methodName = target.method.name
  token_eq : report.token = target.method.token
  previousSize_eq : report.outcome.previousSize = previous
  arraySize_eq : report.outcome.arraySize.toInt = config.entries.length + 1
  sizeLoad : body.listing.get? anchors.size = some (.loadInt report.outcome.arraySize)
  inserted_eq : report.outcome.inserted = 4 * config.entries.length
  size_eq : body.listing.size = target.body.listing.size + report.outcome.inserted
  maxStack_eq : report.outcome.maxStack = body.maxStack
  maxStack_add : body.maxStack.toNat
    = target.body.maxStack.toNat + if config.entries = [] then 0 else 3

/-- The report says what was done, because it is made from the outcome. -/
theorem Report.agrees_of_apply {config : Config} {target : Target} {anchors : Anchors}
    {previous : Int32} {outcome : Outcome} {body : MethodBody}
    (hCheck : (Plan.mk config.entries anchors).check target.body = .ok previous)
    (hApply : (Plan.mk config.entries anchors).apply target.body = .ok outcome body) :
    Report.Agrees ⟨target.type.fullName, target.method.name, target.method.token, outcome⟩ config
      target anchors previous body := by
  obtain ⟨previous', position, hApplied, rfl⟩ := Plan.applied_of_apply hApply
  obtain rfl := Except.ok.inj (hCheck.symm.trans hApplied.checked)
  have hEntries : config.entries.length + 1 < 2 ^ 31 := Nat.lt_succ_of_le hApplied.entries_le
  refine ⟨rfl, rfl, rfl, rfl, ?_, hApplied.spliced.get?_changed, rfl, ?_, rfl,
    Plan.toNat_maxStack hApplied.maxStack_eq⟩
  · exact Int32.toInt_ofNat_of_lt hEntries
  · rw [Listing.size_eq, Listing.size_eq, hApplied.spliced.size_slots, length_storesFrom]

end Patch

namespace Module

open Patch

variable {m m' : Module} {config : Config} {fault : Fault}

/-- A patch succeeds exactly on a target of the right shape that has room for the entries. It then
changes this target and nothing else, and the report says how. -/
theorem patch_succeeds_iff (config : Config) (m : Module) :
    ((∃ report m', patch config m = .ok report m') ↔
      ∃ target anchors previous, Shape config m target anchors previous ∧
        config.entries.length + 1 < 2 ^ 31 ∧
        (config.entries = [] ∨ target.body.maxStack.toNat + 3 < 2 ^ 16)) ∧
      ∀ report m', patch config m = .ok report m' → ∃ target anchors previous body,
        Shape config m target anchors previous ∧ m.ChangedAt m' target body ∧
        report.Agrees config target anchors previous body := by
  refine ⟨⟨?_, ?_⟩, ?_⟩
  · rintro ⟨report, m', hPatch⟩
    obtain ⟨target, anchors, previous, _, _, hShape, _⟩ := shape_of_patch_eq_ok hPatch
    refine ⟨target, anchors, previous, hShape, ?_⟩
    by_contra hFits
    rw [patch_of_not_fits hShape hFits] at hPatch
    cases hPatch
  · rintro ⟨target, anchors, previous, hShape, hFits⟩
    exact patch_of_fits hShape hFits
  · intro report m' hPatch
    obtain ⟨target, anchors, previous, outcome, body, hShape, hApply, rfl, rfl⟩ :=
      shape_of_patch_eq_ok hPatch
    obtain ⟨_, _, hCheck⟩ := shape_iff.1 hShape
    exact ⟨target, anchors, previous, body, hShape,
      changedAt_setMethod body hShape.only.type_eq hShape.only.method_eq,
      Report.agrees_of_apply hCheck hApply⟩

/-- A type of the name that counts, another one inside it, and two methods of the name, of which one
has a body. -/
def sample (maxStack : UInt16) : Module where
  name := "sample"
  assembly := none
  image := none
  types :=
    [⟨Token.ofParts 2 2, "", "A", true, []⟩,
      ⟨Token.ofParts 2 3, "N", "A", false,
        [.new (Token.ofParts 6 1) "M" none,
          .new (Token.ofParts 6 2) "M" (some {
            maxStack
            locals := .null
            initLocals := false
            listing := .ofArray #[⟨.call, .method ⟨.null, "size"⟩⟩, ⟨.ldcI4S, .int8 3⟩,
              ⟨.call, .method ⟨.null, "put"⟩⟩, .plain .ret]
            handlers := [] })]⟩]

/-- The general statement for a method with nine stack slots and two entries. -/
theorem patch_succeeds_iff_sample : ∃ report m',
    patch ⟨"N.A", "M", "put", "size", ["a", "b"]⟩ (sample 9) = .ok report m' ∧
      ∃ target anchors previous body,
        Shape ⟨"N.A", "M", "put", "size", ["a", "b"]⟩ (sample 9) target anchors previous ∧
        (sample 9).ChangedAt m' target body ∧
        report.Agrees ⟨"N.A", "M", "put", "size", ["a", "b"]⟩ target anchors previous body := by
  have hPatch : ∃ report m',
      patch ⟨"N.A", "M", "put", "size", ["a", "b"]⟩ (sample 9) = .ok report m' := ⟨_, _, rfl⟩
  obtain ⟨report, m', hPatch⟩ := hPatch
  exact ⟨report, m', hPatch, (patch_succeeds_iff _ _).2 report m' hPatch⟩

/-- A patch that fails leaves the module as it was, unless the target has the right shape and only
the entries do not fit. All that is different then is that the target counts as modified. -/
theorem patch_failure (hFailed : patch config m = .error fault m') :
    (m' = m ↔ ∀ target anchors previous, Shape config m target anchors previous →
      target.method.modified = true) ∧
    ∀ target anchors previous, Shape config m target anchors previous →
      ¬ (config.entries.length + 1 < 2 ^ 31 ∧
        (config.entries = [] ∨ target.body.maxStack.toNat + 3 < 2 ^ 16)) ∧
      m' = m.setMethod target.typeIndex target.methodIndex
        { target.method with modified := true } := by
  have hLate : ∀ target anchors previous, Shape config m target anchors previous →
      ¬ (Plan.mk config.entries anchors).Fits target.body ∧
      m' = m.setMethod target.typeIndex target.methodIndex
        { target.method with modified := true } := by
    intro target anchors previous hShape
    have hFits : ¬ (Plan.mk config.entries anchors).Fits target.body := by
      intro hFits
      obtain ⟨report, m'', hPatch⟩ := patch_of_fits hShape hFits
      rw [hFailed] at hPatch
      cases hPatch
    rw [patch_of_not_fits hShape hFits] at hFailed
    cases hFailed
    exact ⟨hFits, rfl⟩
  refine ⟨⟨?_, ?_⟩, hLate⟩
  · rintro rfl target anchors previous hShape
    have hMarked := types_setMethod (j := target.methodIndex)
      { target.method with modified := true } hShape.only.type_eq
    rw [← (hLate target anchors previous hShape).2, hShape.only.type_eq] at hMarked
    have hMethods := congrArg TypeDef.methods (Option.some.inj hMarked)
    have hMethod := hShape.only.method_eq
    rw [hMethods, List.getElem?_set_self
      (List.getElem?_eq_some_iff.1 hShape.only.method_eq).1] at hMethod
    exact (congrArg MethodDef.modified (Option.some.inj hMethod)).symm
  · intro hModified
    rcases exists_shape_of_patch_eq_error hFailed with hSame | ⟨target, anchors, previous, hShape⟩
    · exact hSame
    · rw [(hLate target anchors previous hShape).2]
      have hMethod : ({ target.method with modified := true } : MethodDef) = target.method := by
        rw [← hModified target anchors previous hShape]
      rw [hMethod, setMethod_self hShape.only.type_eq hShape.only.method_eq]

/-- The stack would need more slots than can be stated, and the mark is left behind. -/
theorem patch_failure_sample : ∃ fault m',
    patch ⟨"N.A", "M", "put", "size", ["a"]⟩ (sample 0xFFFD) = .error fault m' ∧
      (m' = sample 0xFFFD ↔ ∀ target anchors previous,
        Shape ⟨"N.A", "M", "put", "size", ["a"]⟩ (sample 0xFFFD) target anchors previous →
          target.method.modified = true) := by
  have hFailed : ∃ fault m',
      patch ⟨"N.A", "M", "put", "size", ["a"]⟩ (sample 0xFFFD) = .error fault m' := ⟨_, _, rfl⟩
  obtain ⟨fault, m', hFailed⟩ := hFailed
  exact ⟨fault, m', hFailed, (patch_failure hFailed).1⟩

/-- Where the stack would get too deep, the module has a modified method that it did not have. -/
theorem modified_of_stackOverflow : ¬ ∀ (config : Config) (m m' : Module) (fault : Fault),
    patch config m = .error fault m' → m'.modifiedMethods.length = m.modifiedMethods.length := by
  intro hKept
  exact absurd (hKept ⟨"N.A", "M", "put", "size", ["a"]⟩ (sample 0xFFFD) _ _ rfl) (by decide)

end Module

end IlSplice
