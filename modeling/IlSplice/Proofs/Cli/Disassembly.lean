import IlSplice.Cli.Disassembly
import IlSplice.Proofs.Patch.Effect
import IlSplice.Proofs.Patch.Repeated

/-! The listing of a method that a patch applies to. The first method that a listing comes to is the
only one that a patch may change, and the lines with a mark are the anchors of the patch. -/

namespace IlSplice

namespace Patch.Target

/-- The types that a patch and a listing choose from are the same ones. -/
theorem map_types (m : Module) (name : String) :
    (types m name).map Prod.fst = m.types.filter (·.isNamed name) := by
  conv_rhs => rw [← List.zipIdx_map_fst 0 m.types, List.filter_map]
  rfl

/-- Among the methods of one name, those without a body are passed over. -/
theorem map_methods (t : TypeDef) (typeIndex : Nat) (name : String) :
    (methods t typeIndex name).map (fun target => (target.method, target.body))
      = (t.methods.filter (·.name = name)).filterMap fun method =>
          method.body.map (method, ·) := by
  conv_rhs => rw [← List.zipIdx_map_fst 0 t.methods]
  rw [methods, List.map_filterMap, List.filterMap_filter, List.filterMap_map]
  refine congrArg (List.filterMap · t.methods.zipIdx) (funext fun place => ?_)
  simp only [Function.comp_apply, decide_eq_true_eq]
  split
  · rw [Option.map_map]
    rfl
  · rfl

end Patch.Target

namespace Cli.Disassembly

open Patch

variable {m m' : Module} {config : Config} {target : Target} {t : TypeDef} {method : MethodDef}
  {body : MethodBody} {anchors : Anchors} {report : Report}

/-- Where there is one thing only that the names could mean, it is the first one. -/
theorem ofModule_of_find (hFind : Target.find config m = .ok target) :
    ofModule m config.typeName config.methodName
      = .ok (ofBody target.type target.method target.body) := by
  obtain ⟨hTypes, hMethods⟩ := Target.find_eq_ok_iff_lists.1 hFind
  have hType : m.types.find? (·.isNamed config.typeName) = some target.type := by
    rw [← List.head?_filter, ← Target.map_types, hTypes]
    rfl
  have hMethod : ((target.type.methods.filter (·.name = config.methodName)).findSome?
      fun method => method.body.map (method, ·)) = some (target.method, target.body) := by
    rw [← List.head?_filterMap, ← Target.map_methods _ target.typeIndex, hMethods]
    rfl
  rw [ofModule, hType]
  dsimp only
  rw [hMethod]

/-- The listing shows the body in layout order, and both anchors at their positions in it. -/
structure Shows (d : Disassembly) (body : MethodBody) (anchors : Anchors)
    (injection size : Nat) : Prop where
  anchorFault_eq : d.anchorFault = none
  index_eq : d.lines.map Line.index = List.range d.lines.length
  entries_eq : d.lines.map (fun line => (line.handle, line.instruction)) = body.listing.entries
  injection_at : body.listing.position? anchors.injection = some injection
  size_at : body.listing.position? anchors.size = some size
  injection_lt : injection < d.lines.length
  size_lt : size < d.lines.length
  injection_ne_size : injection ≠ size
  mark_eq : ∀ k line, d.lines[k]? = some line → line.mark =
    if k = injection then some "injection" else if k = size then some "array size" else none

theorem length_lines : (ofBody t method body).lines.length = body.listing.entries.length := by
  rw [ofBody, List.length_map, List.length_zipIdx]

/-- A line tells its position, and the mark that the anchors give to its instruction. -/
theorem line_of_getElem? {k : Nat} {line : Line}
    (hLine : (ofBody t method body).lines[k]? = some line) :
    ∃ h i, body.listing.entries[k]? = some (h, i) ∧ line = ⟨k, h, i,
      mark (Anchors.locate body.listing Config.standard.injectionMember
        Config.standard.sizeMember) h⟩ := by
  simp only [ofBody, List.getElem?_map, List.getElem?_zipIdx, Option.map_map,
    Option.map_eq_some_iff, Function.comp_apply, Nat.zero_add] at hLine
  obtain ⟨⟨h, i⟩, hEntry, rfl⟩ := hLine
  exact ⟨h, i, hEntry, rfl⟩

/-- A listing with two different anchors marks each of them where it stands. -/
theorem shows_ofBody (t : TypeDef) (method : MethodDef)
    (hLocate : Anchors.locate body.listing Config.standard.injectionMember
      Config.standard.sizeMember = .ok anchors) (hDistinct : anchors.injection ≠ anchors.size) :
    ∃ injection size, (ofBody t method body).Shows body anchors injection size := by
  obtain ⟨hInjection, hSize⟩ := Anchors.lt_of_locate hLocate
  have hInjectionAt := Listing.position?_of_lt hInjection
  have hSizeAt := Listing.position?_of_lt hSize
  refine ⟨_, _, ?_, ?_, ?_, hInjectionAt, hSizeAt, ?_, ?_, ?_, fun k line hLine => ?_⟩
  · rw [ofBody, hLocate]
  · rw [length_lines, ofBody, List.map_map, List.range_eq_range', ← List.zipIdx_map_snd]
    rfl
  · conv_rhs => rw [← List.zipIdx_map_fst 0 body.listing.entries]
    rw [ofBody, List.map_map]
    rfl
  · rw [length_lines, Listing.length_entries]
    exact (List.getElem?_eq_some_iff.1 (Listing.position?_eq_some.1 hInjectionAt)).1
  · rw [length_lines, Listing.length_entries]
    exact (List.getElem?_eq_some_iff.1 (Listing.position?_eq_some.1 hSizeAt)).1
  · intro hSame
    refine hDistinct (Eq.symm ?_)
    exact (Listing.eq_iff_position hSizeAt (Listing.position?_eq_some.1 hInjectionAt)).2 hSame
  · obtain ⟨h, i, hEntry, rfl⟩ := line_of_getElem? hLine
    obtain ⟨hOrder, -⟩ := Listing.entries_getElem?_eq_some.1 hEntry
    rw [hLocate, mark]
    simp only [Listing.eq_iff_position hInjectionAt hOrder, Listing.eq_iff_position hSizeAt hOrder]

/-- Where a patch with the standard anchors applies, the method that is listed before is the one
that is patched, and the lines that are marked are the anchors at which it is patched. -/
theorem ofModule_of_patch {typeName methodName : String} {entries : List String}
    (hPatch : Module.patch { Config.standard with typeName, methodName, entries } m
      = .ok report m') :
    ∃ (target : Target) (plan : Plan) (outcome : Outcome) (body : MethodBody) (d : Disassembly)
        (injection size : Nat),
      Target.find { Config.standard with typeName, methodName, entries } m = .ok target ∧
      target.plan { Config.standard with typeName, methodName, entries } = .ok plan ∧
      plan.apply target.body = .ok outcome body ∧
      m' = m.setMethod target.typeIndex target.methodIndex (target.changed body) ∧
      ofModule m typeName methodName = .ok d ∧ d.token = report.token ∧
      d.title = s!"{report.typeName}::{report.methodName} ({report.token})" ∧
      d.Shows target.body plan.anchors injection size := by
  obtain ⟨target, plan, outcome, body, hFind, hPlan, hApply, hModule, rfl⟩ :=
    Module.steps_of_patch_eq_ok hPatch
  obtain ⟨-, hLocate, previous, hCheck⟩ := Target.plan_eq_ok.1 hPlan
  obtain ⟨⟨i, hGet, hConstant⟩, -, -⟩ := Plan.check_eq_ok.1 hCheck
  obtain ⟨hInjection, -⟩ := Anchors.locate_eq_ok.1 hLocate
  obtain ⟨injection, size, hShows⟩ :=
    shows_ofBody target.type target.method hLocate (hInjection.ne_of_constant hGet hConstant)
  exact ⟨target, plan, outcome, body, _, injection, size, hFind, hPlan, hApply, hModule,
    ofModule_of_find hFind, rfl, rfl, hShows⟩

/-- The start-up method between another type of its name, which is nested, and a method of its name
that has no body. -/
def starter : Module where
  name := "sample"
  assembly := none
  image := none
  types :=
    [⟨Token.ofParts 2 2, "", "Starter", true, []⟩,
      ⟨Token.ofParts 2 3, "", "Starter", false,
        [.new (Token.ofParts 6 1) "Awake" none,
          .new (Token.ofParts 6 2) "Awake" (some {
            maxStack := 2
            locals := .null
            initLocals := false
            listing := .ofArray #[⟨.call, .method ⟨.null, "add_eventLogMessage"⟩⟩,
              ⟨.ldcI4S, .int8 3⟩, ⟨.call, .method ⟨.null, "SetAdditionalAssemblies"⟩⟩, .plain .ret]
            handlers := [] })]⟩]

theorem ofModule_of_patch_starter : ∃ report m' d,
    Module.patch { Config.standard with entries := ["a"] } starter = .ok report m' ∧
    ofModule starter "Starter" "Awake" = .ok d ∧ d.token = report.token ∧
    d.lines.map Line.mark = [none, some "array size", some "injection", none] := by
  have hPatch : ∃ report m', Module.patch { Config.standard with entries := ["a"] } starter
      = .ok report m' := ⟨_, _, rfl⟩
  obtain ⟨report, m', hPatch⟩ := hPatch
  obtain ⟨_, _, _, _, d, _, _, -, -, -, -, hListed, hToken, -, -⟩ := ofModule_of_patch hPatch
  refine ⟨report, m', d, hPatch, hListed, hToken, ?_⟩
  obtain rfl := Except.ok.inj (hListed.symm.trans rfl)
  rfl

end Cli.Disassembly

end IlSplice
