import IlSplice.Store

/-!
A file system in memory.

It holds files and directories by their place, and may refuse any of the steps that write a file.
Operations on paths are those of `Disk`.
-/

namespace IlSplice

/-- The names from the root to a file or directory. -/
abbrev Place := List String

/-- What is at a place. -/
inductive Node where
  | file (data : Bytes)
  | directory
  deriving DecidableEq

/-- The steps of writing a file that can be refused. -/
inductive DiskStep where
  | createTemporary
  | write
  | sync
  | rename
  deriving DecidableEq, Repr

/-- Files and directories by place. -/
structure Volume where
  /-- The first entry of a place counts. The root is a directory without being listed. -/
  nodes : List (Place × Node)
  /-- The directory that relative paths start from. -/
  working : Place
  /-- The steps that fail, and why. -/
  refusal : DiskStep → Option DiskError

namespace Volume

/-- A volume in which nothing is refused. -/
def ofNodes (nodes : List (Place × Node)) (working : Place) : Volume :=
  ⟨nodes, working, fun _ => none⟩

/-- What is at a place. -/
def node? (v : Volume) (place : Place) : Option Node :=
  if place = [] then some .directory else v.nodes.lookup place

/-- Puts something at a place. -/
def set (v : Volume) (place : Place) (node : Node) : Volume :=
  { v with nodes := (place, node) :: v.nodes.filter (·.1 ≠ place) }

/-- Takes away what is at a place. -/
def erase (v : Volume) (place : Place) : Volume :=
  { v with nodes := v.nodes.filter (·.1 ≠ place) }

/-- The greatest number of bytes in a name. -/
def maxName : Nat := 255

/-- The greatest number of bytes in a path. -/
def maxPath : Nat := 4095

/-- Goes from a place along the steps of a path. All but the last have to be directories. -/
def walk (v : Volume) (place : Place) : List String → Except DiskError Place
  | [] => .ok place
  | step :: rest =>
    match v.node? place with
    | none => .error .notFound
    | some (.file _) => .error .notDirectory
    | some .directory =>
      if step = "." then walk v place rest
      else if step = ".." then walk v place.dropLast rest
      else if maxName < step.utf8ByteSize then .error .nameTooLong
      else walk v (place ++ [step]) rest

/-- Where a path starts. -/
def start (v : Volume) (path : String) : Place := if Path.isAbsolute path then [] else v.working

/-- The place that a path refers to, whether or not something is there. -/
def resolve (v : Volume) (path : String) : Except DiskError Place :=
  if path.isEmpty then .error .notFound
  else if maxPath < path.utf8ByteSize then .error .nameTooLong
  else v.walk (v.start path) (Path.steps path)

/-- What a path refers to. -/
def at? (v : Volume) (path : String) : Option Node :=
  match v.resolve path with
  | .ok place => v.node? place
  | .error _ => none

/-- The contents of a file. -/
def read (v : Volume) (path : String) : Except DiskError Bytes := do
  match v.node? (← v.resolve path) with
  | some (.file data) => .ok data
  | some .directory => .error .isDirectory
  | none => .error .notFound

/-- A name that is longer than all others, and so is new. -/
def freshName (v : Volume) : String :=
  let longest := ((v.nodes.flatMap (·.1)).map (·.length)).foldl max 0
  ".tmp" ++ String.ofList (List.replicate longest 'x')

/-- The place for a temporary file in a directory. -/
def temporaryIn (v : Volume) (directory : String) : Except DiskError Place := do
  let place ← v.resolve directory
  match v.node? place with
  | some .directory => .ok (place ++ [v.freshName])
  | some (.file _) => .error .notDirectory
  | none => .error .notFound

/-- The place to which a file can be moved by a path. The path has to end in the name of the
file. -/
def target (v : Volume) (path : String) : Except DiskError Place :=
  if maxPath < path.utf8ByteSize then .error .nameTooLong
  else match (Path.names path).getLast? with
  | none => .error (if path.isEmpty then .notFound else .busy)
  | some name => do
    let parent ← v.walk (v.start path) ((Path.names path).dropLast ++ ["."])
    if name = "." ∨ name = ".." then .error .busy
    else if maxName < name.utf8ByteSize then .error .nameTooLong
    else if path.endsWith "/" then .error .notDirectory
    else
      let place := parent ++ [name]
      if v.node? place = some .directory then .error .isDirectory else .ok place

/-- A volume that holds files below its working directory, and all directories on the way to
them. A path without contents is a directory. -/
def ofFiles (working : Place) (files : List (String × Option Bytes)) : Volume :=
  let parents := fun (place : Place) =>
    (List.range place.length).map fun n => (place.take (n + 1), Node.directory)
  files.foldl
    (fun v (path, data) =>
      let place := working ++ Path.names path
      let v := (parents place).foldl (fun v (place, node) => v.set place node) v
      match data with
      | some data => v.set place (.file data)
      | none => v)
    (ofNodes (parents working) working)

/-- The files below the working directory by their paths, in order. -/
def files (v : Volume) : List (String × Bytes) :=
  let found := v.nodes.filterMap fun (place, node) =>
    match node with
    | .file data =>
      if v.working.isPrefixOf place then
        some ("/".intercalate (place.drop v.working.length), data)
      else none
    | .directory => none
  found.mergeSort fun a b => a.1 ≤ b.1

/-- Changes the volume, unless the step is refused or cannot be done. -/
def attempt (step : DiskStep) (change : Volume → Except DiskError (α × Volume)) :
    StateM Volume (Except DiskError α) := fun v =>
  match v.refusal step with
  | some cause => (.error cause, v)
  | none =>
    match change v with
    | .error cause => (.error cause, v)
    | .ok (value, v) => (.ok value, v)

instance : Disk (StateM Volume) where
  Temporary := Place
  isFile path := fun v => (match v.at? path with
    | some (.file _) => true
    | _ => false, v)
  isDirectory path := fun v => (v.at? path == some .directory, v)
  read path := fun v => (v.read path, v)
  createTemporary directory := attempt .createTemporary fun v => do
    let place ← v.temporaryIn directory
    return (place, v.set place (.file #[]))
  write place data := attempt .write fun v => .ok ((), v.set place (.file data))
  sync _ := attempt .sync fun v => .ok ((), v)
  rename place path := attempt .rename fun v => do
    let target ← v.target path
    match v.node? place with
    | some node => return ((), (v.erase place).set target node)
    | none => .error .notFound
  discard place := fun v => ((), v.erase place)

end Volume

end IlSplice
