import IlSplice.Body
import IlSplice.Image

/-!
Modules: types, their methods, and the bodies of the methods.

A module that was loaded keeps its image, and so can be written again. A method whose body was
taken for a change counts as modified from then on.
-/

namespace IlSplice

/-- The name and the version of an assembly. -/
structure AssemblyIdentity where
  name : String
  major : UInt16
  minor : UInt16
  build : UInt16
  revision : UInt16
  deriving DecidableEq, Repr

namespace AssemblyIdentity

/-- Name and version in the usual form. -/
def text (a : AssemblyIdentity) : String :=
  s!"{a.name}, Version={a.major.toNat}.{a.minor.toNat}.{a.build.toNat}.{a.revision.toNat}"

/-- The identity spelt out. -/
def describe (a : AssemblyIdentity) : String :=
  let version := s!"({a.major.toNat}, {a.minor.toNat}, {a.build.toNat}, {a.revision.toNat})"
  s!"AssemblyIdentity \x7b name: {Text.quoted a.name}, version: {version} \x7d"

end AssemblyIdentity

/-- A method of a type. -/
structure MethodDef where
  token : Token
  name : String
  flags : UInt32
  implFlags : UInt32
  /-- Where the body is in the image, zero without one. -/
  rva : UInt32
  body : Option MethodBody
  modified : Bool

namespace MethodDef

/-- A method that belongs to no image. -/
def new (token : Token) (name : String) (body : Option MethodBody) : MethodDef :=
  ⟨token, name, 0, 0, 0, body, false⟩

/-- Changes the body, if there is one. The method then counts as modified, also where the change
fails. -/
def editBody (edit : Edit MethodBody α) : Edit MethodDef (Option α) := fun m =>
  match m.body with
  | none => .ok none m
  | some body =>
    match edit body with
    | .ok value body => .ok (some value) { m with body := some body, modified := true }
    | .error fault body => .error fault { m with body := some body, modified := true }

end MethodDef

/-- A type of a module. -/
structure TypeDef where
  token : Token
  /-- Empty for the global namespace. -/
  namespaceName : String
  name : String
  /-- The type stands inside another type. -/
  nested : Bool
  methods : List MethodDef

namespace TypeDef

/-- The name with its namespace. -/
def fullName (t : TypeDef) : String :=
  if t.namespaceName.isEmpty then t.name else s!"{t.namespaceName}.{t.name}"

/-- The type stands by itself and has the name, with or without namespace. -/
def isNamed (t : TypeDef) (name : String) : Bool :=
  !t.nested && (t.name == name || t.fullName == name)

end TypeDef

/-- A module of an assembly. -/
structure Module where
  name : String
  /-- Missing in a module that is only a part of an assembly. -/
  assembly : Option AssemblyIdentity
  types : List TypeDef
  /-- The image that the module was loaded from. -/
  image : Option Image

namespace Module

/-- The methods that were modified, in order. -/
def modifiedMethods (m : Module) : List MethodDef :=
  m.types.flatMap fun t => t.methods.filter (·.modified)

/-- Puts a method in the place of another one. -/
def setMethod (m : Module) (type method : Nat) (new : MethodDef) : Module :=
  { m with
    types := m.types.modify type fun t => { t with methods := t.methods.set method new } }

/-- A summary of the module. -/
def describe (m : Module) : String :=
  let assembly := match m.assembly with
    | some a => s!"Some({a.describe})"
    | none => "None"
  s!"Module \x7b name: {Text.quoted m.name}, assembly: {assembly}, types: {m.types.length}"
    ++ s!", has_image: {m.image.isSome} \x7d"

end Module

end IlSplice
