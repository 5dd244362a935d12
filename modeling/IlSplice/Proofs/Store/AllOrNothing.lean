import IlSplice.Store.Volume
import IlSplice.Proofs.Outcome

/-! Output that is all or nothing. Whatever step of a patch fails, the volume is the one before: the
only file that may have been made by then has a name of its own, and is removed. If no step fails,
the place of the output holds the new image, and nothing else has changed. -/

namespace IlSplice

namespace Volume

variable {v v' : Volume} {place other temporary : Place} {node : Node} {path directory : String}
  {data : Bytes} {steps : List String}

section Nodes

theorem lookup_filter_ne {nodes : List (Place × Node)} (hOther : other ≠ place) :
    (nodes.filter (·.1 ≠ place)).lookup other = nodes.lookup other := by
  induction nodes with
  | nil => rfl
  | cons entry rest ih =>
      obtain ⟨key, node⟩ := entry
      by_cases hKey : key = place
      · subst hKey
        rw [List.filter_cons_of_neg (by simp), ih, List.lookup_cons, beq_eq_false_iff_ne.2 hOther]
      · rw [List.filter_cons_of_pos (by simpa using hKey), List.lookup_cons, List.lookup_cons, ih]

theorem node?_set (hBelow : place ≠ []) :
    (v.set place node).node? other = if other = place then some node else v.node? other := by
  unfold node? set
  split
  · subst other
    rw [if_neg hBelow.symm]
  · split
    · subst other
      rw [List.lookup_cons, beq_self_eq_true]
    · rw [List.lookup_cons, beq_eq_false_iff_ne.2 ‹_›]
      exact lookup_filter_ne ‹_›

/-- What is put somewhere replaces what was put there before, so that no trace of it is left in the
list. -/
theorem set_set (first second : Node) :
    (v.set place first).set place second = v.set place second := by
  simp [set, List.filter_filter]

/-- Nothing is listed at the place. -/
def Vacant (v : Volume) (place : Place) : Prop := ∀ node, (place, node) ∉ v.nodes

/-- Putting something where nothing is listed and taking it away again gives the same volume, and
not just an equivalent one. -/
theorem Vacant.erase_set (hVacant : v.Vacant place) (node : Node) :
    (v.set place node).erase place = v := by
  have hKept : v.nodes.filter (·.1 ≠ place) = v.nodes := by
    refine List.filter_eq_self.2 fun entry hMem => decide_eq_true ?_
    rintro rfl
    exact hVacant _ hMem
  rw [erase, set, hKept, List.filter_cons_of_neg (by simp), hKept]

theorem Vacant.node?_eq_none (hVacant : v.Vacant place) (hBelow : place ≠ []) :
    v.node? place = none := by
  rw [node?, if_neg hBelow, List.lookup_eq_none_iff]
  rintro ⟨key, node⟩ hMem
  refine bne_iff_ne.2 ?_
  rintro rfl
  exact hVacant node hMem

/-- The fresh name is part of no place. -/
theorem freshName_notMem (hNode : (place, node) ∈ v.nodes) : v.freshName ∉ place := by
  intro hName
  have hLength : v.freshName.length
      ≤ ((v.nodes.flatMap (·.1)).map (·.length)).foldl max 0 :=
    (foldl_max_le_iff.1 le_rfl).2 _ (List.mem_map_of_mem (List.mem_flatMap.2 ⟨_, hNode, hName⟩))
  simp [freshName] at hLength

/-- A temporary file gets a name that nothing has. -/
theorem vacant_of_temporaryIn (hTemporary : v.temporaryIn directory = .ok temporary) :
    v.Vacant temporary ∧ temporary ≠ [] := by
  obtain ⟨parent, _, hTemporary⟩ := Except.bind_eq_ok.1 hTemporary
  split at hTemporary <;> cases hTemporary
  exact ⟨fun node hMem => freshName_notMem hMem (by simp), by simp⟩

end Nodes

section Walks

/-- The volumes have the same directories, and paths start from the same of them. -/
structure Alike (v v' : Volume) : Prop where
  working_eq : v'.working = v.working
  directory_iff : ∀ place, v'.node? place = some .directory ↔ v.node? place = some .directory

/-- Volumes with the same directories resolve the same paths, in both directions. -/
theorem Alike.symm (hAlike : v.Alike v') : v'.Alike v :=
  ⟨hAlike.working_eq.symm, fun place => (hAlike.directory_iff place).symm⟩

/-- A file that does not take the place of a directory changes no directory. -/
theorem alike_set (hBelow : place ≠ []) (hOther : v.node? place ≠ some .directory) :
    v.Alike (v.set place (.file data)) := by
  refine ⟨rfl, fun other => ?_⟩
  rw [node?_set hBelow]
  split
  · subst other
    exact iff_of_false (fun hSame => nomatch hSame) hOther
  · rfl

/-- Where one step of a path leads from a directory. -/
def onward (place : Place) (step : String) : Except DiskError Place :=
  if step = "." then .ok place
  else if step = ".." then .ok place.dropLast
  else if maxName < step.utf8ByteSize then .error .nameTooLong
  else .ok (place ++ [step])

/-- A path goes on from directories only. -/
theorem walk_cons_eq_ok {step : String} : v.walk place (step :: steps) = .ok other ↔
    v.node? place = some .directory ∧
      ∃ next, onward place step = .ok next ∧ v.walk next steps = .ok other := by
  rw [walk]
  split
  · simp [*]
  · simp [*]
  · rename_i hNode
    rw [and_iff_right hNode, ← Except.bind_eq_ok, onward]
    refine iff_of_eq (congrArg (· = _) ?_)
    split_ifs <;> rfl

/-- A path may be cut between any two steps. By induction on the first part. -/
theorem walk_append_eq_ok {steps' : List String} : v.walk place (steps ++ steps') = .ok other ↔
    ∃ middle, v.walk place steps = .ok middle ∧ v.walk middle steps' = .ok other := by
  induction steps generalizing place with
  | nil => simp [walk]
  | cons step rest ih =>
      simp only [List.cons_append, walk_cons_eq_ok, ih]
      constructor
      · rintro ⟨hNode, next, hNext, middle, hFirst, hSecond⟩
        exact ⟨middle, ⟨hNode, next, hNext, hFirst⟩, hSecond⟩
      · rintro ⟨middle, ⟨hNode, next, hNext, hFirst⟩, hSecond⟩
        exact ⟨hNode, next, hNext, middle, hFirst, hSecond⟩

/-- A walk leads where it leads because of the directories only. -/
theorem Alike.walk (hAlike : v.Alike v') (hWalk : v.walk place steps = .ok other) :
    v'.walk place steps = .ok other := by
  induction steps generalizing place with
  | nil => exact hWalk
  | cons step rest ih =>
      obtain ⟨hNode, next, hNext, hRest⟩ := walk_cons_eq_ok.1 hWalk
      exact walk_cons_eq_ok.2 ⟨(hAlike.directory_iff place).2 hNode, next, hNext, ih hRest⟩

/-- Where a path starts depends on the working directory at most. -/
theorem Alike.start (hAlike : v.Alike v') (path : String) : v'.start path = v.start path := by
  rw [Volume.start, Volume.start, hAlike.working_eq]

theorem resolve_eq_ok : v.resolve path = .ok place ↔ path.isEmpty = false ∧
    path.utf8ByteSize ≤ maxPath ∧ v.walk (v.start path) (Path.steps path) = .ok place := by
  unfold resolve
  split_ifs with hEmpty hLong
  · simp [hEmpty]
  · simp [hLong]
  · simp [hEmpty, Nat.le_of_not_lt hLong]

/-- Files do not matter for where a path leads, until its last step. -/
theorem Alike.resolve (hAlike : v.Alike v') (hResolve : v.resolve path = .ok place) :
    v'.resolve path = .ok place := by
  obtain ⟨hSome, hLong, hWalk⟩ := resolve_eq_ok.1 hResolve
  exact resolve_eq_ok.2 ⟨hSome, hLong, hAlike.start path ▸ hAlike.walk hWalk⟩

/-- A path that leads to the place finds the new file. -/
theorem at?_set (hBelow : place ≠ []) (hOther : v.node? place ≠ some .directory)
    (hResolve : v.resolve path = .ok place) :
    (v.set place (.file data)).at? path = some (.file data) := by
  rw [at?, (alike_set hBelow hOther).resolve hResolve]
  exact (node?_set hBelow).trans (if_pos rfl)

/-- All other paths find what they found, also those that lead nowhere. -/
theorem at?_set_of_ne (hBelow : place ≠ []) (hOther : v.node? place ≠ some .directory)
    (hResolve : v.resolve path ≠ .ok place) :
    (v.set place (.file data)).at? path = v.at? path := by
  have hAlike : v.Alike (v.set place (.file data)) := alike_set hBelow hOther
  unfold at?
  cases hPath : v.resolve path with
  | ok other =>
      rw [hAlike.resolve hPath]
      refine (node?_set hBelow).trans (if_neg ?_)
      rintro rfl
      exact hResolve hPath
  | error reason =>
      cases hPath' : (v.set place (.file data)).resolve path with
      | ok other => cases hPath.symm.trans (hAlike.symm.resolve hPath')
      | error reason' => rfl

/-- The checks for a path to which a file is moved. Its last name need not be there, but may not be
a directory. -/
theorem target_eq_ok : v.target path = .ok place ↔ path.utf8ByteSize ≤ maxPath ∧
    ∃ front name parent, Path.names path = front ++ [name] ∧
      v.walk (v.start path) (front ++ ["."]) = .ok parent ∧ ¬ (name = "." ∨ name = "..") ∧
      name.utf8ByteSize ≤ maxName ∧ path.endsWith "/" = false ∧ place = parent ++ [name] ∧
      v.node? place ≠ some .directory := by
  unfold target
  by_cases hLong : maxPath < path.utf8ByteSize
  · simp [hLong]
  rw [if_neg hLong, and_iff_right (Nat.le_of_not_lt hLong)]
  split
  · rename_i hNone
    rw [List.getLast?_eq_none_iff] at hNone
    simp [hNone]
  rename_i name hLast
  obtain ⟨front, hNames⟩ := List.getLast?_eq_some_iff.1 hLast
  rw [hNames, List.dropLast_concat, Except.bind_eq_ok]
  constructor
  · rintro ⟨parent, hWalk, hRest⟩
    dsimp only at hRest
    split_ifs at hRest with hDots hName hSlash hDirectory
    cases hRest
    exact ⟨front, name, parent, rfl, hWalk, hDots, Nat.le_of_not_lt hName, by simpa using hSlash,
      rfl, hDirectory⟩
  · rintro ⟨front', name', parent, hSame, hWalk, hDots, hName, hSlash, rfl, hDirectory⟩
    obtain ⟨rfl, rfl⟩ := List.append_inj' hSame rfl |>.imp_right List.head_eq_of_cons_eq
    refine ⟨parent, hWalk, ?_⟩
    rw [if_neg hDots, if_neg (Nat.not_lt.2 hName), if_neg (by simp [hSlash]), if_neg hDirectory]

/-- A file that was made on the way does not change where the output goes. -/
theorem Alike.target (hAlike : v.Alike v') (hTarget : v.target path = .ok place) :
    v'.target path = .ok place := by
  obtain ⟨hLong, front, name, parent, hNames, hWalk, hDots, hName, hSlash, hPlace, hOther⟩ :=
    target_eq_ok.1 hTarget
  exact target_eq_ok.2 ⟨hLong, front, name, parent, hNames, hAlike.start path ▸ hAlike.walk hWalk,
    hDots, hName, hSlash, hPlace, fun hSame => hOther ((hAlike.directory_iff place).1 hSame)⟩

theorem names_empty : Path.names "" = [] := by
  have hExtract : String.Pos.Raw.extract "" 0 0 = "" := rfl
  simp [Path.names, String.splitOn, String.splitOnAux, hExtract]

/-- A path to which a file can be moved leads to the place where the file then is. -/
theorem resolve_of_target (hTarget : v.target path = .ok place) :
    v.resolve path = .ok place ∧ place ≠ [] ∧ v.node? place ≠ some .directory := by
  obtain ⟨hLong, front, name, parent, hNames, hWalk, hDots, hName, hSlash, rfl, hOther⟩ :=
    target_eq_ok.1 hTarget
  refine ⟨resolve_eq_ok.2 ⟨?_, hLong, ?_⟩, by simp, hOther⟩
  · by_contra hEmpty
    obtain rfl : path = "" := by simpa using hEmpty
    simp [names_empty] at hNames
  · obtain ⟨middle, hFront, hDot⟩ := walk_append_eq_ok.1 hWalk
    obtain ⟨hNode, next, hNext, hLast⟩ := walk_cons_eq_ok.1 hDot
    cases hNext
    cases hLast
    rw [Path.steps, hNames, hSlash, if_neg Bool.false_ne_true, List.append_nil]
    refine walk_append_eq_ok.2 ⟨parent, hFront, walk_cons_eq_ok.2 ⟨hNode, _, ?_, rfl⟩⟩
    obtain ⟨hDot, hUp⟩ := not_or.1 hDots
    rw [onward, if_neg hDot, if_neg hUp, if_neg (Nat.not_lt.2 hName)]

end Walks

/-- What an operation yields, and the volume that it leaves. -/
def perform {α : Type} (v : Volume) (operation : StateM Volume α) : α × Volume := operation v

end Volume

namespace Store

open Volume

variable {v v' : Volume} {temporary : Place} {path input output : String} {data old : Bytes}
  {fault : Fault} {config : Patch.Config} {report : Patch.Report} {m : Module}

section Steps

variable {α β : Type} {a : α} {b : β} {x : ExceptT Fault (StateM Volume) α}
  {f : α → ExceptT Fault (StateM Volume) β} {operation : StateM Volume (Except DiskError α)}
  {cause : DiskError → Fault} {diskStep : DiskStep}
  {change : Volume → Except DiskError (α × Volume)}

/-- The steps of an operation on a volume, one after the other. A failure ends them, and keeps the
volume as it is then. -/
theorem perform_bind (v : Volume) (x : ExceptT Fault (StateM Volume) α)
    (f : α → ExceptT Fault (StateM Volume) β) : v.perform (x >>= f).run =
      match v.perform x.run with
      | (.ok a, v') => v'.perform (f a).run
      | (.error fault, v') => (.error fault, v') := by
  change (match v.perform x.run with | (r, v') => v'.perform (ExceptT.bindCont f r)) = _
  rcases v.perform x.run with ⟨_ | a, v'⟩ <;> rfl

theorem bind_eq_ok : v.perform (x >>= f).run = (.ok b, v') ↔ ∃ a middle,
    v.perform x.run = (.ok a, middle) ∧ middle.perform (f a).run = (.ok b, v') := by
  rw [perform_bind]
  rcases v.perform x.run with ⟨_ | a, middle⟩ <;> simp

theorem bind_eq_error : v.perform (x >>= f).run = (.error fault, v') ↔
    v.perform x.run = (.error fault, v') ∨ ∃ a middle,
      v.perform x.run = (.ok a, middle) ∧ middle.perform (f a).run = (.error fault, v') := by
  rw [perform_bind]
  rcases v.perform x.run with ⟨_ | a, middle⟩ <;> simp

/-- What is done about a failure is done on the volume that the failure left. -/
theorem perform_tryCatch (v : Volume) (x : ExceptT Fault (StateM Volume) α)
    (handler : Fault → ExceptT Fault (StateM Volume) α) : v.perform (tryCatch x handler).run =
      match v.perform x.run with
      | (.ok a, v') => (.ok a, v')
      | (.error fault, v') => v'.perform (handler fault).run := by
  have hBind : ∀ next : Except Fault α → StateM Volume (Except Fault α),
      v.perform (x.run >>= next) = (v.perform x.run).2.perform (next (v.perform x.run).1) :=
    fun _ => rfl
  rw [ExceptT.run_tryCatch, hBind]
  rcases v.perform x.run with ⟨_ | a, v'⟩ <;> rfl

theorem perform_step (v : Volume) (cause : DiskError → Fault)
    (operation : StateM Volume (Except DiskError α)) : v.perform (step cause operation).run
      = ((v.perform operation).1.mapError cause, (v.perform operation).2) := by
  have hLift : v.perform (liftM operation : ExceptT Fault (StateM Volume) _).run
      = (.ok (v.perform operation).1, (v.perform operation).2) := rfl
  rw [step, perform_bind, hLift]
  rcases v.perform operation with ⟨_ | a, v'⟩ <;> rfl

theorem step_eq_ok : v.perform (step cause operation).run = (.ok a, v') ↔
    v.perform operation = (.ok a, v') := by
  rw [perform_step]
  rcases v.perform operation with ⟨_ | a, v'⟩ <;> simp [Except.mapError]

/-- An operation is tried unless the volume is made to refuse it, which is how failures of any step
are modelled. -/
theorem attempt_eq_ok : v.perform (attempt diskStep change) = (.ok a, v') ↔
    v.refusal diskStep = none ∧ change v = .ok (a, v') := by
  unfold perform attempt
  split
  · simp [*]
  · rename_i hAllowed
    rw [and_iff_right hAllowed]
    rcases change v with reason | ⟨a, v'⟩ <;> simp

/-- A step that is refused or that cannot be done leaves the volume as it is. -/
theorem of_step_attempt_eq_error
    (hRun : v.perform (step cause (attempt diskStep change)).run = (.error fault, v')) :
    v' = v := by
  rw [perform_step, perform, attempt] at hRun
  split at hRun
  · cases hRun
    rfl
  · split at hRun <;> cases hRun
    rfl

end Steps

/-- A filled temporary file takes the place of the target, and is there no longer. -/
theorem fill_eq_ok (hVacant : v.Vacant temporary) (hBelow : temporary ≠ []) :
    (v.set temporary (.file old)).perform (fill (m := StateM Volume) temporary data path).run
        = (.ok (), v') ↔
      (v.refusal .write = none ∧ v.refusal .sync = none ∧ v.refusal .rename = none) ∧
        ∃ place, v.target path = .ok place ∧ v' = v.set place (.file data) := by
  have hAlike : v.Alike (v.set temporary (.file data)) :=
    alike_set hBelow (by rw [hVacant.node?_eq_none hBelow]; simp)
  have hNode : (v.set temporary (.file data)).node? temporary = some (.file data) := by
    rw [node?_set hBelow, if_pos rfl]
  have hErase := hVacant.erase_set (.file data)
  unfold fill
  constructor
  · intro hRun
    obtain ⟨_, middle, hWrite, hRun⟩ := bind_eq_ok.1 hRun
    obtain ⟨_, last, hSync, hRename⟩ := bind_eq_ok.1 hRun
    obtain ⟨hWritten, hWrite⟩ := attempt_eq_ok.1 (step_eq_ok.1 hWrite)
    cases hWrite
    obtain ⟨hSynced, hSync⟩ := attempt_eq_ok.1 (step_eq_ok.1 hSync)
    cases hSync
    rw [set_set] at hSynced hRename
    obtain ⟨hRenamed, hRename⟩ := attempt_eq_ok.1 (step_eq_ok.1 hRename)
    obtain ⟨place, hTarget, hRename⟩ := Except.bind_eq_ok.1 hRename
    rw [hNode, hErase] at hRename
    cases hRename
    exact ⟨⟨hWritten, hSynced, hRenamed⟩, place, hAlike.symm.target hTarget, rfl⟩
  · rintro ⟨⟨hWritten, hSynced, hRenamed⟩, place, hTarget, rfl⟩
    refine bind_eq_ok.2 ⟨(), _, step_eq_ok.2 (attempt_eq_ok.2 ⟨hWritten, rfl⟩), ?_⟩
    rw [set_set]
    refine bind_eq_ok.2 ⟨(), _, step_eq_ok.2 (attempt_eq_ok.2 ⟨hSynced, rfl⟩), ?_⟩
    refine step_eq_ok.2 (attempt_eq_ok.2 ⟨hRenamed, ?_⟩)
    refine Except.bind_eq_ok.2 ⟨place, hAlike.target hTarget, ?_⟩
    rw [hNode, hErase]
    rfl

/-- A temporary file that cannot be filled or moved is still there. -/
theorem of_fill_eq_error
    (hRun : (v.set temporary (.file old)).perform
      (fill (m := StateM Volume) temporary data path).run = (.error fault, v')) :
    ∃ left, v' = v.set temporary (.file left) := by
  rcases bind_eq_error.1 hRun with hWrite | ⟨_, middle, hWrite, hRun⟩
  · exact ⟨old, of_step_attempt_eq_error hWrite⟩
  obtain ⟨_, hWrite⟩ := attempt_eq_ok.1 (step_eq_ok.1 hWrite)
  cases hWrite
  rw [set_set] at hRun
  rcases bind_eq_error.1 hRun with hSync | ⟨_, last, hSync, hRename⟩
  · exact ⟨data, of_step_attempt_eq_error hSync⟩
  obtain ⟨_, hSync⟩ := attempt_eq_ok.1 (step_eq_ok.1 hSync)
  cases hSync
  exact ⟨data, of_step_attempt_eq_error hRename⟩

/-- A temporary file is empty at first, and is the only thing that is made. -/
theorem createTemporary_eq_ok {cause : DiskError → Fault} {directory : String} :
    v.perform (step cause (Disk.createTemporary (m := StateM Volume) directory)).run
        = (.ok temporary, v') ↔
      v.refusal .createTemporary = none ∧ v.temporaryIn directory = .ok temporary ∧
        v' = v.set temporary (.file #[]) := by
  refine step_eq_ok.trans (attempt_eq_ok.trans (and_congr_right fun _ => ?_))
  rw [Except.bind_eq_ok]
  constructor
  · rintro ⟨place, hPlace, hSet⟩
    cases hSet
    exact ⟨hPlace, rfl⟩
  · rintro ⟨hPlace, rfl⟩
    exact ⟨temporary, hPlace, rfl⟩

/-- A file is written if no step is refused, and if the path has a directory and leads to something
else than a directory. -/
theorem persist_eq_ok : v.perform (persist (m := StateM Volume) data path).run = (.ok (), v') ↔
    (∀ diskStep, v.refusal diskStep = none) ∧
      (∃ temporary, v.temporaryIn (Path.directory path) = .ok temporary) ∧
      ∃ place, v.target path = .ok place ∧ v' = v.set place (.file data) := by
  refine bind_eq_ok.trans ⟨?_, ?_⟩
  · rintro ⟨temporary, middle, hCreate, hRun⟩
    obtain ⟨hCreated, hTemporary, rfl⟩ := createTemporary_eq_ok.1 hCreate
    obtain ⟨hVacant, hBelow⟩ := vacant_of_temporaryIn hTemporary
    rw [perform_tryCatch] at hRun
    split at hRun
    · rename_i last hFill
      cases hRun
      obtain ⟨⟨hWritten, hSynced, hRenamed⟩, hPlaced⟩ := (fill_eq_ok hVacant hBelow).1 hFill
      refine ⟨fun diskStep => ?_, ⟨temporary, hTemporary⟩, hPlaced⟩
      cases diskStep <;> assumption
    · cases hRun
  · rintro ⟨hAllowed, ⟨temporary, hTemporary⟩, hPlaced⟩
    obtain ⟨hVacant, hBelow⟩ := vacant_of_temporaryIn hTemporary
    refine ⟨temporary, _, createTemporary_eq_ok.2 ⟨hAllowed _, hTemporary, rfl⟩, ?_⟩
    rw [perform_tryCatch,
      (fill_eq_ok hVacant hBelow).2 ⟨⟨hAllowed _, hAllowed _, hAllowed _⟩, hPlaced⟩]

/-- Whatever step fails, the volume is the one before. -/
theorem of_persist_eq_error
    (hRun : v.perform (persist (m := StateM Volume) data path).run = (.error fault, v')) :
    v' = v := by
  rcases bind_eq_error.1 hRun with hCreate | ⟨temporary, middle, hCreate, hRun⟩
  · exact of_step_attempt_eq_error hCreate
  obtain ⟨_, hTemporary, rfl⟩ := createTemporary_eq_ok.1 hCreate
  obtain ⟨hVacant, _⟩ := vacant_of_temporaryIn hTemporary
  rw [perform_tryCatch] at hRun
  split at hRun
  · cases hRun
  · rename_i last hFill
    obtain ⟨left, rfl⟩ := of_fill_eq_error hFill
    cases hRun
    exact hVacant.erase_set _

theorem read_eq_ok : v.read path = .ok data ↔ v.at? path = some (.file data) := by
  unfold Volume.read at?
  rw [Except.bind_eq_ok]
  cases v.resolve path with
  | error reason => simp
  | ok place => cases hNode : v.node? place with
    | none => simp [hNode]
    | some node => cases node <;> simp [hNode]

/-- The report and the module that a patch of a module yields. -/
def patched (config : Patch.Config) (m : Module) : Except Fault (Patch.Report × Module) :=
  match Module.patch config m with
  | .ok report m' => .ok (report, m')
  | .error fault _ => .error fault

/-- A patch of a module as a checked result. What a failed patch leaves is not saved. -/
theorem patched_eq_ok {m' : Module} :
    patched config m = .ok (report, m') ↔ Module.patch config m = .ok report m' := by
  unfold patched
  cases Module.patch config m <;> simp

/-- What a patch of a file is going to save. -/
def prepared (v : Volume) (config : Patch.Config) (input : String) :
    Except Fault (Patch.Report × Module) :=
  match v.at? input with
  | some (.file data) => Module.ofBytes data >>= patched config
  | _ => .error (.inputMissing input)

/-- Everything that can fail before the volume is changed. -/
theorem prepared_eq_ok {m' : Module} : prepared v config input = .ok (report, m') ↔
    ∃ data m, v.read input = .ok data ∧ Module.ofBytes data = .ok m ∧
      Module.patch config m = .ok report m' := by
  simp only [read_eq_ok, ← patched_eq_ok]
  unfold prepared
  split
  · rename_i data hFile
    rw [Except.bind_eq_ok, hFile]
    constructor
    · rintro ⟨m, hLoad, hPatch⟩
      exact ⟨data, m, rfl, hLoad, hPatch⟩
    · rintro ⟨_, m, hSame, hLoad, hPatch⟩
      cases hSame
      exact ⟨m, hLoad, hPatch⟩
  · rename_i hOther
    exact ⟨fun hFault => (nomatch hFault), fun ⟨_, _, hFile, _⟩ => (hOther _ hFile).elim⟩

/-- Reading a file changes nothing. -/
theorem perform_read (hFile : v.at? path = some (.file data)) :
    v.perform (read (m := StateM Volume) path).run = (Module.ofBytes data, v) := by
  have hBytes : v.perform (readBytes (m := StateM Volume) path).run = (.ok data, v) := by
    change v.perform (if v.at? path == some .directory then throw (.unmappable .noDevice)
      else step (m := StateM Volume) .unreadable (Disk.read path)).run = _
    rw [hFile, if_neg (by simp), perform_step]
    change ((v.read path).mapError _, v) = _
    rw [read_eq_ok.2 hFile]
    rfl
  rw [read, perform_bind, hBytes]
  rfl

/-- A patch whose result is saved in any way. -/
def patchWith {μ : Type → Type} [Monad μ] [Disk μ] (save : Module → String → ExceptT Fault μ Unit)
    (config : Patch.Config) (input output : String) : ExceptT Fault μ Patch.Report := do
  if !(← (Disk.isFile input : μ Bool)) then throw (.inputMissing input)
  else
    let module ← read input
    let (result, module) := (Module.patch config).runOn module
    let report ← ExceptT.mk (pure result)
    save module output
    return report

/-- A patch of a file saves its result in one of the ways that are looked at here. -/
theorem patch_eq_patchWith {μ : Type → Type} [Monad μ] [Disk μ] :
    patch (m := μ) = patchWith write := rfl

/-- Nothing is saved before loading and patching have succeeded, in whatever way the result is
saved. -/
theorem perform_patchWith (v : Volume)
    (save : Module → String → ExceptT Fault (StateM Volume) Unit) :
    v.perform (patchWith save config input output).run = match prepared v config input with
      | .error fault => (.error fault, v)
      | .ok (report, m') => match v.perform (save m' output).run with
        | (.ok (), v') => (.ok report, v')
        | (.error fault, v') => (.error fault, v') := by
  change v.perform (if !(match v.at? input with
      | some (.file _) => true
      | _ => false) then throw (.inputMissing input)
    else do
      let m ← read input
      let (result, m') := (Module.patch config).runOn m
      let report ← ExceptT.mk (pure result)
      save m' output
      return report : ExceptT Fault (StateM Volume) Patch.Report).run = _
  unfold prepared
  split
  · rename_i data hFile
    rw [if_neg (by simp), perform_bind, perform_read hFile]
    rcases Module.ofBytes data with fault | m
    · rfl
    · change v.perform (do
        let report ← ExceptT.mk (pure ((Module.patch config).runOn m).1)
        save ((Module.patch config).runOn m).2 output
        return report : ExceptT Fault (StateM Volume) Patch.Report).run
          = match patched config m with | .error fault => _ | .ok (report, m') => _
      rw [Edit.runOn, patched]
      cases Module.patch config m with
      | error fault m' => rfl
      | ok report m' =>
          change v.perform (save m' output >>= fun _ => pure report).run =
            match v.perform (save m' output).run with
            | (.ok (), v') => (.ok report, v')
            | (.error fault, v') => (.error fault, v')
          rw [perform_bind]
          rcases v.perform (save m' output).run with ⟨_ | _, v'⟩ <;> rfl
  · rfl

/-- A module is put together completely before anything is saved. -/
theorem perform_write (v : Volume) (m : Module) (path : String) :
    v.perform (write (m := StateM Volume) m path).run = match m.toBytes with
      | .ok out => v.perform (persist (m := StateM Volume) out path).run
      | .error fault => (.error fault, v) := by
  have hBytes : v.perform (ExceptT.mk (pure m.toBytes)).run = (m.toBytes, v) := rfl
  rw [write, perform_bind, hBytes]
  cases m.toBytes <;> rfl

/-- A module is saved exactly if it has bytes and these are. -/
theorem write_eq_ok : v.perform (write (m := StateM Volume) m path).run = (.ok (), v') ↔
    ∃ out, m.toBytes = .ok out ∧
      v.perform (persist (m := StateM Volume) out path).run = (.ok (), v') := by
  rw [perform_write]
  cases m.toBytes <;> simp

/-- A file is patched if its module can be loaded, patched and made into an image, and if the image
can be written. -/
theorem patch_eq_ok :
    v.perform (patch (m := StateM Volume) config input output).run = (.ok report, v') ↔
      ∃ m' out, prepared v config input = .ok (report, m') ∧ m'.toBytes = .ok out ∧
        v.perform (persist (m := StateM Volume) out output).run = (.ok (), v') := by
  rw [patch_eq_patchWith, perform_patchWith]
  rcases prepared v config input with fault | ⟨report', m'⟩
  · simp
  constructor
  · intro hRun
    dsimp only at hRun
    split at hRun
    · rename_i hWrite
      cases hRun
      obtain ⟨out, hBytes, hPersist⟩ := write_eq_ok.1 hWrite
      exact ⟨m', out, rfl, hBytes, hPersist⟩
    · cases hRun
  · rintro ⟨m', out, hSame, hBytes, hPersist⟩
    cases hSame
    dsimp only
    rw [write_eq_ok.2 ⟨out, hBytes, hPersist⟩]

/-- Any fault leaves the volume as it was, with the only temporary file removed again. -/
theorem of_patch_eq_error
    (hRun : v.perform (patch (m := StateM Volume) config input output).run = (.error fault, v')) :
    v' = v := by
  rw [patch_eq_patchWith, perform_patchWith] at hRun
  split at hRun
  · cases hRun
    rfl
  · split at hRun
    · cases hRun
    · rename_i report m' _ fault' last hWrite
      cases hRun
      rw [perform_write] at hWrite
      split at hWrite
      · exact of_persist_eq_error hWrite
      · cases hWrite
        rfl

/-- A patch of a file leaves the volume as it is, or puts the image of the patched module in the
place of the output and changes nothing else. It does not write at all, and would not with another
way of writing either, unless the module could be loaded and patched. -/
theorem patch_allOrNothing (v : Volume) (config : Patch.Config) (input output : String) :
    (match v.perform (patch config input output).run with
      | (.error _, v') => v' = v
      | (.ok report, v') => ∃ data m m' out place, v.read input = .ok data ∧
          Module.ofBytes data = .ok m ∧ Module.patch config m = .ok report m' ∧
          m'.toBytes = .ok out ∧ v.resolve output = .ok place ∧ v'.read output = .ok out ∧
          (∀ other, v'.node? other = if other = place then some (.file out) else v.node? other) ∧
          (∀ path, v.resolve path = .ok place → v'.at? path = some (.file out)) ∧
          ∀ path, v.resolve path ≠ .ok place → v'.at? path = v.at? path) ∧
      patch (m := StateM Volume) config input output = patchWith write config input output ∧
      ((∃ data m report m', v.read input = .ok data ∧ Module.ofBytes data = .ok m ∧
          Module.patch config m = .ok report m') ∨
        ∃ fault, ∀ save,
          v.perform (patchWith save config input output).run = (.error fault, v)) := by
  refine ⟨?_, rfl, ?_⟩
  · rcases hRun : v.perform (patch config input output).run with ⟨fault | report, v'⟩
    · exact of_patch_eq_error hRun
    · obtain ⟨m', out, hPrepared, hBytes, hPersist⟩ := patch_eq_ok.1 hRun
      obtain ⟨data, m, hRead, hLoad, hPatch⟩ := prepared_eq_ok.1 hPrepared
      obtain ⟨_, _, place, hTarget, rfl⟩ := persist_eq_ok.1 hPersist
      obtain ⟨hResolve, hBelow, hOther⟩ := resolve_of_target hTarget
      exact ⟨data, m, m', out, place, hRead, hLoad, hPatch, hBytes, hResolve,
        read_eq_ok.2 (at?_set hBelow hOther hResolve), fun other => node?_set hBelow,
        fun path => at?_set hBelow hOther, fun path => at?_set_of_ne hBelow hOther⟩
  · cases hPrepared : prepared v config input with
    | ok result => exact .inl ⟨_, _, _, _, (prepared_eq_ok.1 hPrepared).choose_spec.choose_spec⟩
    | error fault => exact .inr ⟨fault, fun save => by rw [perform_patchWith, hPrepared]⟩

end Store

end IlSplice
