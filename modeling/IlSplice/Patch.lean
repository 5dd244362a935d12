import IlSplice.Module
import IlSplice.Patch.Config
import IlSplice.Patch.Plan

/-!
Patching a module.

The target has to be unambiguous: one type of the name, and in it one method of the name that has
a body. Types inside other types do not count.
-/

namespace IlSplice

namespace Patch

/-- What a patch has done, and where. -/
structure Report where
  /-- The full name of the type. -/
  typeName : String
  methodName : String
  token : Token
  outcome : Outcome
  deriving DecidableEq, Repr

/-- The report in words. -/
def Report.text (r : Report) : String :=
  s!"{r.typeName}::{r.methodName} ({r.token}): array size {r.outcome.previousSize.toInt} -> "
    ++ s!"{r.outcome.arraySize.toInt}, {r.outcome.inserted} instructions inserted"

/-- A method with a body, and its place in a module. -/
structure Target where
  typeIndex : Nat
  type : TypeDef
  methodIndex : Nat
  method : MethodDef
  body : MethodBody

namespace Target

/-- The types that stand by themselves and have the name, with their places. -/
def types (m : Module) (name : String) : List (TypeDef × Nat) :=
  m.types.zipIdx.filter (·.1.isNamed name)

/-- The methods with a body that have the name. -/
def methods (t : TypeDef) (typeIndex : Nat) (name : String) : List Target :=
  t.methods.zipIdx.filterMap fun (method, methodIndex) =>
    if method.name = name then
      method.body.map fun body => ⟨typeIndex, t, methodIndex, method, body⟩
    else none

/-- Finds the target of a patch. -/
def find (config : Config) (m : Module) : Except Fault Target :=
  match types m config.typeName with
  | [(t, typeIndex)] =>
    match methods t typeIndex config.methodName with
    | [target] => .ok target
    | found => .error (.methodNotFound t.fullName config.methodName found.length)
  | found => .error (.typeNotFound config.typeName found.length)

/-- The plan of a patch for the target, if the body of the target can take it. -/
def plan (config : Config) (target : Target) : Except Fault Plan := do
  let anchors ← Anchors.locate target.body.listing config.injectionMember config.sizeMember
  let plan : Plan := ⟨config.entries, anchors⟩
  let _ ← plan.check target.body
  return plan

end Target

end Patch

namespace Module

open Patch

/-- Changes the body of a target, which counts as modified from then on. -/
def editTarget (target : Target) (edit : Edit MethodBody α) : Edit Module α := fun m =>
  let put := fun body =>
    m.setMethod target.typeIndex target.methodIndex
      { target.method with body := some body, modified := true }
  match edit target.body with
  | .ok value body => .ok value (put body)
  | .error fault body => .error fault (put body)

/-- Patches a module. -/
def patch (config : Config) : Edit Module Report := do
  let target ← Edit.check (Target.find config)
  let plan ← Edit.check fun _ => target.plan config
  let outcome ← editTarget target plan.apply
  return ⟨target.type.fullName, target.method.name, target.method.token, outcome⟩

end Module

end IlSplice
