/-!
What to patch.
-/

namespace IlSplice.Patch

/-- The target of a patch, and the entries that it adds. -/
structure Config where
  /-- The type of the method, with or without its namespace. -/
  typeName : String
  methodName : String
  /-- The method whose only call the entries are stored in front of. -/
  injectionMember : String
  /-- The method whose only call stands in front of the size of the array. -/
  sizeMember : String
  /-- The entries in the order in which they are stored, from index one on. -/
  entries : List String
  deriving DecidableEq, Repr

/-- The start-up method of the game, and the two assemblies that plugins refer to. -/
def Config.standard : Config where
  typeName := "Starter"
  methodName := "Awake"
  injectionMember := "SetAdditionalAssemblies"
  sizeMember := "add_eventLogMessage"
  entries := ["Assembly-CSharp.dll", "ColossalManaged.dll"]

end IlSplice.Patch
