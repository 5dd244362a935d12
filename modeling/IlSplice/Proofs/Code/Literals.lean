import IlSplice.Proofs.Code.Emission

/-! The literals that code needs tokens for. A token is asked for once for each literal that has
none, in the order of the code. -/

namespace IlSplice

/-- The text of the literal, if it has no token. -/
def Operand.newTexts : Operand → List String
  | .literal ⟨Option.none, text⟩ => [text]
  | _ => []

/-- The same tokens, beside a list of the texts that were asked for. -/
def Interner.recorded {σ : Type} (intern : Interner σ) : Interner (σ × List String) :=
  fun text (s, asked) =>
    match intern text s with
    | .ok t s' => .ok t (s', asked ++ [text])
    | .error fault s' => .error fault (s', asked ++ [text])

/-- The texts of the literals without token, in layout order. -/
def Listing.newTexts (l : Listing) : List String :=
  l.entries.flatMap fun entry => entry.2.operand.newTexts

theorem Edit.exists_pure_eq_ok {σ α : Type} {a : α} {s s' : σ} :
    (∃ b, (pure a : Edit σ α) s = .ok b s') ↔ s = s' := by
  simp only [pure_eq_ok, exists_eq_left']

section

variable {σ : Type} {intern : Interner σ} {operand interned : Operand}
  {entries internedAll : List (Handle × Instruction)} {s s' : σ}

namespace Operand

/-- An operand is a literal without token, or it is written without asking for one. -/
theorem newTexts_cases (operand : Operand) : (∃ text, operand = .literal ⟨Option.none, text⟩) ∨
    operand.newTexts = [] ∧ ∀ {σ : Type} (intern : Interner σ),
      operand.intern intern = pure operand := by
  by_cases hNew : ∃ text, operand = .literal ⟨Option.none, text⟩
  · exact .inl hNew
  · refine .inr ⟨?_, fun intern => ?_⟩
    · unfold newTexts
      split
      · exact (hNew ⟨_, rfl⟩).elim
      · rfl
    · unfold Operand.intern
      split
      · exact (hNew ⟨_, rfl⟩).elim
      · rfl

/-- An operand gets its token exactly if all its texts do, of which it has one at most. -/
theorem exists_intern_iff : (∃ interned, operand.intern intern s = .ok interned s') ↔
    ∃ tokens, operand.newTexts.mapM intern s = .ok tokens s' := by
  rcases operand.newTexts_cases with ⟨text, rfl⟩ | ⟨hTexts, hIntern⟩
  · rw [newTexts, List.mapM_cons, List.mapM_nil]
    simp only [Operand.intern, Edit.bind_eq_ok, Edit.pure_eq_ok]
    constructor
    · rintro ⟨_, t, _, hToken, _, rfl⟩
      exact ⟨_, t, _, hToken, [], _, ⟨rfl, rfl⟩, rfl, rfl⟩
    · rintro ⟨_, t, _, hToken, _, _, ⟨_, rfl⟩, _, rfl⟩
      exact ⟨_, t, _, hToken, rfl, rfl⟩
  · rw [hTexts, hIntern, List.mapM_nil, Edit.exists_pure_eq_ok, Edit.exists_pure_eq_ok]

/-- Writing down the texts that are asked for changes neither the tokens nor what the interner
keeps. -/
theorem intern_recorded (hIntern : operand.intern intern s = .ok interned s')
    (asked : List String) : operand.intern intern.recorded (s, asked)
      = .ok interned (s', asked ++ operand.newTexts) := by
  rcases operand.newTexts_cases with ⟨text, rfl⟩ | ⟨hTexts, hPure⟩
  · obtain ⟨t, middle, hToken, hPure⟩ := Edit.bind_eq_ok.1 hIntern
    obtain ⟨rfl, rfl⟩ := Edit.pure_eq_ok.1 hPure
    refine Edit.bind_eq_ok.2 ⟨t, (middle, asked ++ [text]), ?_, rfl⟩
    rw [Interner.recorded, hToken]
  · rw [hPure] at hIntern ⊢
    obtain ⟨rfl, rfl⟩ := Edit.pure_eq_ok.1 hIntern
    rw [hTexts, List.append_nil]
    rfl

end Operand

namespace Listing

/-- The tokens of all literals are found exactly if those of the new texts are, one after the
other. -/
theorem exists_internAll_iff :
    (∃ interned, internAll intern entries s = .ok interned s') ↔
      ∃ tokens, (entries.flatMap fun entry => entry.2.operand.newTexts).mapM intern s
        = .ok tokens s' := by
  induction entries generalizing s with
  | nil =>
      rw [List.flatMap_nil, List.mapM_nil, internAll, Edit.exists_pure_eq_ok,
        Edit.exists_pure_eq_ok]
  | cons entry rest ih =>
      rw [List.flatMap_cons, List.mapM_append]
      simp only [Edit.bind_eq_ok, Edit.pure_eq_ok]
      constructor
      · rintro ⟨_, hIntern⟩
        obtain ⟨operand, middle, tail, hOperand, hTail, _⟩ := internAll_cons_eq_ok.1 hIntern
        obtain ⟨first, hFirst⟩ := Operand.exists_intern_iff.1 ⟨operand, hOperand⟩
        obtain ⟨later, hLater⟩ := ih.1 ⟨tail, hTail⟩
        exact ⟨_, first, middle, hFirst, later, s', hLater, rfl, rfl⟩
      · rintro ⟨_, first, middle, hFirst, later, _, hLater, _, rfl⟩
        obtain ⟨operand, hOperand⟩ := Operand.exists_intern_iff.2 ⟨first, hFirst⟩
        obtain ⟨tail, hTail⟩ := ih.2 ⟨later, hLater⟩
        exact ⟨_, internAll_cons_eq_ok.2 ⟨operand, middle, tail, hOperand, hTail, rfl⟩⟩

/-- Each text is asked for once. -/
theorem internAll_recorded (hIntern : internAll intern entries s = .ok internedAll s')
    (asked : List String) : internAll intern.recorded entries (s, asked) = .ok internedAll
      (s', asked ++ entries.flatMap fun entry => entry.2.operand.newTexts) := by
  induction entries generalizing s internedAll asked with
  | nil =>
      obtain ⟨rfl, rfl⟩ := Edit.pure_eq_ok.1 hIntern
      rw [List.flatMap_nil, List.append_nil]
      rfl
  | cons entry rest ih =>
      obtain ⟨operand, middle, tail, hOperand, hTail, rfl⟩ := internAll_cons_eq_ok.1 hIntern
      rw [List.flatMap_cons, ← List.append_assoc]
      exact internAll_cons_eq_ok.2
        ⟨operand, _, tail, Operand.intern_recorded hOperand asked, ih hTail _, rfl⟩

end Listing

end

end IlSplice
