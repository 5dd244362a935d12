/-!
Paths of files as text.

Names are separated by slashes. A path that starts with a slash counts from the root, any other
one from the working directory.
-/

namespace IlSplice.Path

/-- The path counts from the root. -/
def isAbsolute (path : String) : Bool := path.startsWith "/"

/-- The names in a path. -/
def names (path : String) : List String := (path.splitOn "/").filter (· ≠ "")

/-- The steps from the start of a path to what it refers to. A slash at the end asks for a
directory, as a dot does. -/
def steps (path : String) : List String :=
  names path ++ if path.endsWith "/" then ["."] else []

/-- A path below another one. -/
def join (base path : String) : String :=
  if isAbsolute path then path
  else if base.isEmpty || base.endsWith "/" then base ++ path
  else base ++ "/" ++ path

/-- The directory of what a path refers to, which dots do not change. -/
def directory (path : String) : String :=
  let above := ((names path).filter (· ≠ ".")).dropLast
  let text := "/".intercalate above
  if isAbsolute path && names path ≠ [] then "/" ++ text
  else if text.isEmpty then "."
  else text

end IlSplice.Path
