import IlSplice.Fault

/-!
Changes to a value that can fail.
-/

namespace IlSplice

/-- A change to a value of type `σ`. Where it fails it still leaves a value behind, so that what a
failed change keeps is part of its meaning. -/
abbrev Edit (σ : Type) := EStateM Fault σ

namespace Edit

/-- The result of a change and the value that it leaves. -/
def runOn (edit : Edit σ α) (s : σ) : Except Fault α × σ :=
  match edit s with
  | .ok value s => (.ok value, s)
  | .error fault s => (.error fault, s)

/-- Checks that leave the value as it is. -/
def check (result : σ → Except Fault α) : Edit σ α := fun s =>
  match result s with
  | .ok value => .ok value s
  | .error fault => .error fault s

end Edit

end IlSplice
