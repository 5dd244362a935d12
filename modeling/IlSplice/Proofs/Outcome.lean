import IlSplice.Bytes.Scan
import IlSplice.Edit
import Mathlib

/-! What the success of a sequence of steps says about the single steps, for checks that can fail,
for edits and for scans. -/

namespace IlSplice

theorem forall₂_getElem? {α β : Type} {R : α → β → Prop} {xs : List α} {ys : List β}
    (hEach : List.Forall₂ R xs ys) {k : Nat} {x : α} (hx : xs[k]? = some x) :
    ∃ y, ys[k]? = some y ∧ R x y := by
  induction hEach generalizing k with
  | nil => cases hx
  | @cons _ y _ _ hHead _ ih =>
      cases k with
      | zero =>
          cases hx
          exact ⟨y, rfl, hHead⟩
      | succ k => exact ih hx

theorem forall₂_mem_right {α β : Type} {R : α → β → Prop} {xs : List α} {ys : List β}
    (hEach : List.Forall₂ R xs ys) {y : β} (hy : y ∈ ys) : ∃ x ∈ xs, R x y := by
  obtain ⟨k, hk⟩ := List.getElem?_of_mem hy
  obtain ⟨x, hx, hSame⟩ := forall₂_getElem? hEach.flip hk
  exact ⟨x, List.mem_of_getElem? hx, hSame⟩

/-- A maximum stays within a bound if nothing that goes into it is beyond. -/
theorem foldl_max_le_iff {ns : List Nat} {first bound : Nat} :
    ns.foldl max first ≤ bound ↔ first ≤ bound ∧ ∀ n ∈ ns, n ≤ bound := by
  induction ns generalizing first with
  | nil => simp
  | cons n rest ih => rw [List.foldl_cons, ih, List.forall_mem_cons, Nat.max_le, and_assoc]

namespace Except

/-- Two checks succeed together exactly if both do. Models are taken apart by this, one check after
the other. -/
theorem bind_eq_ok {ε α β : Type} {x : Except ε α} {f : α → Except ε β} {b : β} :
    x >>= f = .ok b ↔ ∃ a, x = .ok a ∧ f a = .ok b := by
  cases x with
  | error e => exact ⟨fun h => (nomatch h), fun ⟨_, h, _⟩ => (nomatch h)⟩
  | ok a => exact ⟨fun h => ⟨a, rfl, h⟩, fun ⟨_, rfl, h⟩ => h⟩

theorem exists_bind_eq_ok_iff {ε α β : Type} {x : Except ε α} {f : α → Except ε β} :
    (∃ b, x >>= f = .ok b) ↔ ∃ a, x = .ok a ∧ ∃ b, f a = .ok b := by
  simp only [bind_eq_ok]
  exact ⟨fun ⟨b, a, hx, hf⟩ => ⟨a, hx, b, hf⟩, fun ⟨a, hx, b, hf⟩ => ⟨b, a, hx, hf⟩⟩

theorem bind_eq_error {ε α β : Type} {x : Except ε α} {f : α → Except ε β} {e : ε} :
    x >>= f = .error e ↔ x = .error e ∨ ∃ a, x = .ok a ∧ f a = .error e := by
  cases x with
  | error e' =>
      refine ⟨fun h => .inl (congrArg _ (Except.error.inj h)), ?_⟩
      rintro (h | ⟨_, h, _⟩)
      · exact congrArg _ (Except.error.inj h)
      · cases h
  | ok a =>
      refine ⟨fun h => .inr ⟨a, rfl, h⟩, ?_⟩
      rintro (h | ⟨_, h, hf⟩)
      · cases h
      · cases h
        exact hf

theorem map_eq_ok {ε α β : Type} {x : Except ε α} {f : α → β} {b : β} :
    f <$> x = .ok b ↔ ∃ a, x = .ok a ∧ f a = b := by
  cases x with
  | error e => exact ⟨fun h => (nomatch h), fun ⟨_, h, _⟩ => (nomatch h)⟩
  | ok a => exact ⟨fun h => ⟨a, rfl, Except.ok.inj h⟩, fun ⟨_, rfl, h⟩ => congrArg _ h⟩

/-- A result that is worked out by evaluation is compared as an option, since faults need not be
compared. -/
theorem toOption_eq_some {ε α : Type} {x : Except ε α} {a : α} :
    x.toOption = some a ↔ x = .ok a := by
  cases x with
  | error e => exact ⟨fun h => (nomatch h), fun h => (nomatch h)⟩
  | ok b => exact ⟨fun h => congrArg _ (Option.some.inj h), fun h => congrArg _ (Except.ok.inj h)⟩

/-- A checked map succeeds exactly if it does so at every member of the list. -/
theorem mapM_eq_ok {ε α β : Type} {f : α → Except ε β} {xs : List α} {ys : List β} :
    xs.mapM f = .ok ys ↔ List.Forall₂ (fun x y => f x = .ok y) xs ys := by
  induction xs generalizing ys with
  | nil =>
      rw [List.mapM_nil, List.forall₂_nil_left_iff]
      exact ⟨fun h => (Except.ok.inj h).symm, fun h => h ▸ rfl⟩
  | cons x xs ih =>
      rw [List.mapM_cons, bind_eq_ok, List.forall₂_cons_left_iff]
      refine exists_congr fun y => ?_
      rw [bind_eq_ok]
      constructor
      · rintro ⟨hx, zs, hxs, hys⟩
        exact ⟨zs, hx, ih.1 hxs, (Except.ok.inj hys).symm⟩
      · rintro ⟨zs, hx, hxs, rfl⟩
        exact ⟨hx, zs, ih.2 hxs, rfl⟩

/-- A checked map fails exactly if some member does, whatever the others give. -/
theorem exists_mapM_eq_ok_iff {ε α β : Type} {f : α → Except ε β} {xs : List α} :
    (∃ ys, xs.mapM f = .ok ys) ↔ ∀ x ∈ xs, ∃ y, f x = .ok y := by
  induction xs with
  | nil => exact ⟨fun _ => List.forall_mem_nil _, fun _ => ⟨[], rfl⟩⟩
  | cons x xs ih =>
      rw [List.mapM_cons, exists_bind_eq_ok_iff, List.forall_mem_cons, ← ih]
      simp only [exists_bind_eq_ok_iff]
      exact ⟨fun ⟨y, hx, ys, hxs, _⟩ => ⟨⟨y, hx⟩, ys, hxs⟩,
        fun ⟨⟨y, hx⟩, ys, hxs⟩ => ⟨y, hx, ys, hxs, y :: ys, rfl⟩⟩

/-- A checked map that fails does so at a member of the list. -/
theorem mem_of_mapM_eq_error {ε α β : Type} {f : α → Except ε β} {xs : List α} {e : ε}
    (h : xs.mapM f = .error e) : ∃ x ∈ xs, f x = .error e := by
  induction xs with
  | nil => cases h
  | cons x xs ih =>
      rw [List.mapM_cons] at h
      rcases bind_eq_error.1 h with hx | ⟨_, _, h⟩
      · exact ⟨x, List.mem_cons_self .., hx⟩
      · rcases bind_eq_error.1 h with hxs | ⟨_, _, hPure⟩
        · obtain ⟨y, hMem, hy⟩ := ih hxs
          exact ⟨y, List.mem_cons_of_mem _ hMem, hy⟩
        · cases hPure

end Except

namespace Edit

/-- Two changes succeed together exactly if both do, the second on what the first one left. -/
theorem bind_eq_ok {σ α β : Type} {x : Edit σ α} {f : α → Edit σ β} {s s' : σ} {b : β} :
    (x >>= f) s = .ok b s' ↔ ∃ a middle, x s = .ok a middle ∧ f a middle = .ok b s' := by
  simp only [bind, EStateM.bind]
  constructor
  · intro h
    split at h
    · exact ⟨_, _, ‹_›, h⟩
    · cases h
  · rintro ⟨a, middle, hx, hf⟩
    rw [hx]
    exact hf

/-- What a failed change leaves behind comes from the part that failed, so that earlier parts are
not undone. -/
theorem bind_eq_error {σ α β : Type} {x : Edit σ α} {f : α → Edit σ β} {s s' : σ} {e : Fault} :
    (x >>= f) s = .error e s' ↔
      x s = .error e s' ∨ ∃ a middle, x s = .ok a middle ∧ f a middle = .error e s' := by
  simp only [bind, EStateM.bind]
  cases x s with
  | ok a middle => simp
  | error e' middle => simp

theorem pure_eq_ok {σ α : Type} {a b : α} {s s' : σ} :
    (pure a : Edit σ α) s = .ok b s' ↔ a = b ∧ s = s' := by
  constructor
  · intro h
    cases h
    exact ⟨rfl, rfl⟩
  · rintro ⟨rfl, rfl⟩
    rfl

theorem check_eq_ok {σ α : Type} {result : σ → Except Fault α} {s s' : σ} {a : α} :
    check result s = .ok a s' ↔ result s = .ok a ∧ s = s' := by
  unfold check
  cases hResult : result s with
  | error fault => simp
  | ok b => simp

theorem check_eq_error {σ α : Type} {result : σ → Except Fault α} {s s' : σ} {e : Fault} :
    check result s = .error e s' ↔ result s = .error e ∧ s = s' := by
  unfold check
  cases hResult : result s with
  | error fault => simp
  | ok b => simp

/-- Bytes that can be computed are put behind the data. -/
theorem extend_eq_ok {result : Except Fault (List UInt8)} {data out : Bytes} :
    (check (fun _ => result) >>= fun bs => modify (· ++ bs.toArray)) data = .ok () out ↔
      ∃ bs, result = .ok bs ∧ out = data ++ bs.toArray := by
  rw [bind_eq_ok]
  constructor
  · rintro ⟨bs, middle, hCheck, hModify⟩
    obtain ⟨hBytes, rfl⟩ := check_eq_ok.1 hCheck
    cases hModify
    exact ⟨bs, hBytes, rfl⟩
  · rintro ⟨bs, hBytes, rfl⟩
    exact ⟨bs, data, check_eq_ok.2 ⟨hBytes, rfl⟩, rfl⟩

/-- Bytes are appended as a whole or not at all. -/
theorem extend_eq_error {result : Except Fault (List UInt8)} {data out : Bytes} {e : Fault} :
    (check (fun _ => result) >>= fun bs => modify (· ++ bs.toArray) : Edit Bytes Unit) data
      = .error e out ↔ result = .error e ∧ out = data := by
  rw [bind_eq_error, check_eq_error]
  constructor
  · rintro (⟨hError, rfl⟩ | ⟨bs, middle, -, hModify⟩)
    · exact ⟨hError, rfl⟩
    · cases hModify
  · rintro ⟨hError, rfl⟩
    exact .inl ⟨hError, rfl⟩

end Edit

namespace Scan

theorem bind_of_ok {scan : Scan α} {next : α → Scan β} {data : Bytes} {start middle : Nat} {a : α}
    (h : scan data start = .ok a middle) :
    (scan >>= next) data start = next a data middle := by
  simp only [bind, ReaderT.bind, EStateM.bind, h]

/-- Nothing is read behind a step that fails, and the position stays where it failed. -/
theorem bind_of_error {scan : Scan α} {next : α → Scan β} {data : Bytes} {start stop : Nat}
    {fault : Fault} (h : scan data start = .error fault stop) :
    (scan >>= next) data start = .error fault stop := by
  simp only [bind, ReaderT.bind, EStateM.bind, h]

theorem bind_eq_error {scan : Scan α} {next : α → Scan β} {data : Bytes} {start stop : Nat}
    {fault : Fault} : (scan >>= next) data start = .error fault stop ↔
      scan data start = .error fault stop ∨
        ∃ a middle, scan data start = .ok a middle ∧ next a data middle = .error fault stop := by
  simp only [bind, ReaderT.bind, EStateM.bind]
  cases scan data start with
  | ok a middle => simp
  | error fault' middle => simp

theorem pure_eq_ok {a b : α} {data : Bytes} {start stop : Nat} :
    (pure a : Scan α) data start = .ok b stop ↔ a = b ∧ start = stop := by
  constructor
  · intro h
    cases h
    exact ⟨rfl, rfl⟩
  · rintro ⟨rfl, rfl⟩
    rfl

theorem check_eq_ok {result : Except Fault α} {data : Bytes} {start stop : Nat} {a : α} :
    check result data start = .ok a stop ↔ result = .ok a ∧ start = stop := by
  unfold check
  cases result with
  | error fault => simp
  | ok b => simp

theorem evalAt_eq_ok {scan : Scan α} {data : Bytes} {start : Nat} {a : α} :
    scan.evalAt data start = .ok a ↔ ∃ stop, scan data start = .ok a stop := by
  unfold evalAt
  cases scan data start with
  | error fault stop => simp
  | ok b stop => simp

end Scan

end IlSplice
