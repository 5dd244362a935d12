import IlSplice.Body
import IlSplice.Proofs.Listing

/-! Control flow in a method body: which instruction may follow which, and which instructions a
handler protects. A range of instructions goes by their positions in the layout order. -/

namespace IlSplice

/-- Control may go on with the next instruction. -/
def Flow.fallsThrough : Flow → Bool
  | .sequential | .conditional | .call | .switch => true
  | .unconditional | .ret | .throw | .endFinally | .leave => false

namespace Listing

/-- The instruction stands at or behind `start` and in front of `stop`, or of the end of the code
where there is no `stop`. -/
def InRange (l : Listing) (start : Handle) (stop : Option Handle) (h : Handle) : Prop :=
  ∃ k first, l.position? h = some k ∧ l.position? start = some first ∧ first ≤ k ∧
    ∀ bound ∈ stop, ∃ last, l.position? bound = some last ∧ k < last

end Listing

namespace Handler

theorem mem_bounds {handler : Handler} {h : Handle} : h ∈ handler.bounds ↔
    h = handler.tryStart ∨ h = handler.handlerStart ∨ h ∈ handler.tryEnd ∨
      h ∈ handler.handlerEnd ∨ h ∈ handler.filterStart := by
  simp only [bounds, List.mem_append, List.mem_cons, List.not_mem_nil, or_false,
    Option.mem_toList, or_assoc, Option.mem_def]

/-- The instruction is one of those that the handler protects. -/
def Protects (handler : Handler) (l : Listing) (h : Handle) : Prop :=
  l.InRange handler.tryStart handler.tryEnd h

/-- The instruction belongs to the handler itself. -/
def Covers (handler : Handler) (l : Listing) (h : Handle) : Prop :=
  l.InRange handler.handlerStart handler.handlerEnd h

/-- The instruction belongs to the filter, which ends where the handler starts. -/
def Filters (handler : Handler) (l : Listing) (h : Handle) : Prop :=
  ∃ filter ∈ handler.filterStart, l.InRange filter (some handler.handlerStart) h

end Handler

namespace MethodBody

/-- Control may pass from one instruction to the other: to the next one, along a branch or through
a jump table, or from a protected instruction into the handler or its filter. -/
inductive Successor (b : MethodBody) : Handle → Handle → Prop where
  | next {h next : Handle} {i : Instruction} (get : b.listing.get? h = some i)
      (falls : i.opcode.flow.fallsThrough = true) (behind : b.listing.next? h = some next) :
      Successor b h next
  | branch {h target : Handle} {i : Instruction} (get : b.listing.get? h = some i)
      (leads : target ∈ i.targets) : Successor b h target
  | handler {h : Handle} {handler : Handler} (mem : handler ∈ b.handlers)
      (guarded : handler.Protects b.listing h) : Successor b h handler.handlerStart
  | filter {h filter : Handle} {handler : Handler} (mem : handler ∈ b.handlers)
      (start : filter ∈ handler.filterStart) (guarded : handler.Protects b.listing h) :
      Successor b h filter

/-- All branches and handlers refer to instructions of the body. -/
structure Closed (b : MethodBody) : Prop where
  targets : ∀ h i, b.listing.get? h = some i → ∀ target ∈ i.targets,
    ∃ k, b.listing.position? target = some k
  bounds : ∀ handler ∈ b.handlers, ∀ bound ∈ handler.bounds,
    ∃ k, b.listing.position? bound = some k

/-- No branch and no bound of a handler is the instruction. -/
def Unreferenced (b : MethodBody) (h : Handle) : Prop :=
  (∀ source i, b.listing.get? source = some i → h ∉ i.targets) ∧
    ∀ handler ∈ b.handlers, h ∉ handler.bounds

variable {b : MethodBody} {h target : Handle}

/-- The search through branches and handlers finds nothing exactly if nothing refers to the
instruction. -/
theorem isReferenced_eq_false : b.isReferenced h = false ↔ b.Unreferenced h := by
  rw [isReferenced, Bool.or_eq_false_iff, List.any_eq_false, List.any_eq_false, Unreferenced]
  refine and_congr ⟨fun hNone source i hGet => ?_, fun hNone entry hMem => ?_⟩ (by simp)
  · simpa using hNone (source, i) (Listing.mem_entries.2 hGet)
  · simpa using hNone entry.1 entry.2 (Listing.mem_entries.1 hMem)

/-- An instruction that nothing refers to is only reached from the one in front of it. -/
theorem Unreferenced.successor_iff (hNone : b.Unreferenced target) {source : Handle} :
    b.Successor source target ↔ ∃ i, b.listing.get? source = some i ∧
      i.opcode.flow.fallsThrough = true ∧ b.listing.next? source = some target := by
  constructor
  · intro hSuccessor
    cases hSuccessor with
    | next get falls behind => exact ⟨_, get, falls, behind⟩
    | branch get leads => exact (hNone.1 _ _ get leads).elim
    | handler mem _ => exact (hNone.2 _ mem (Handler.mem_bounds.2 (.inr (.inl rfl)))).elim
    | filter mem start _ =>
        exact (hNone.2 _ mem (Handler.mem_bounds.2 (.inr (.inr (.inr (.inr start)))))).elim
  · rintro ⟨i, hGet, hFalls, hNext⟩
    exact .next hGet hFalls hNext

end MethodBody

end IlSplice
