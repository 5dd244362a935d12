import IlSplice.Module.Write
import IlSplice.Proofs.Bytes.Overwrite
import IlSplice.Proofs.Image.Placement
import IlSplice.Proofs.Outcome

/-! The bodies in the contents of the new section. They lie one behind the other, and each method
gets the address of its own. -/

namespace IlSplice.Module

open Bytes

/-- A body in the contents of the new section. -/
structure Block where
  method : MethodDef
  /-- Where it starts in the contents. -/
  start : Nat
  code : Bytes

namespace Block

def span (b : Block) : Span := .ofWidth b.start b.code.size

/-- The new address of the method, for contents at the address `base`. -/
def redirect (base : Nat) (b : Block) : Redirect :=
  ⟨b.method.token.row, UInt32.ofNat (base + b.start)⟩

end Block

/-- Each block is the encoded body of its method. The literals of one body are there for the
next. -/
inductive Encodes : LiteralPool → List Block → LiteralPool → Prop where
  | nil {pool : LiteralPool} : Encodes pool [] pool
  | cons {pool middle pool' : LiteralPool} {b : Block} {rest : List Block} {body : MethodBody}
      (body_eq : b.method.body = some body)
      (encode : body.encode LiteralPool.intern pool = .ok b.code middle)
      (others : Encodes middle rest pool') : Encodes pool (b :: rest) pool'

/-- From an offset on, the contents hold blocks one behind the other, each at a multiple of four. -/
inductive Laid (content : Bytes) : Nat → List Block → Prop where
  | nil {first : Nat} : Laid content first []
  | cons {first : Nat} {b : Block} {rest : List Block} (le : first ≤ b.start) (dvd : 4 ∣ b.start)
      (holds : content.Holds b.start b.code.toList)
      (others : Laid content (b.start + b.code.size) rest) : Laid content first (b :: rest)

namespace Laid

variable {content : Bytes} {first : Nat} {blocks : List Block}

theorem of_mem (h : Laid content first blocks) {b : Block} (hMem : b ∈ blocks) :
    first ≤ b.start ∧ 4 ∣ b.start ∧ content.Holds b.start b.code.toList := by
  induction h with
  | nil => cases hMem
  | cons hLe hDvd hHolds _ ih =>
      rcases List.mem_cons.1 hMem with rfl | hMem
      · exact ⟨hLe, hDvd, hHolds⟩
      · obtain ⟨hBehind, hRest⟩ := ih hMem
        exact ⟨by omega, hRest⟩

/-- By induction on the blocks, each of which starts behind the end of the one before. -/
theorem pairwise_apart (h : Laid content first blocks) :
    (blocks.map Block.span).Pairwise Span.Apart := by
  rw [List.pairwise_map]
  induction h with
  | nil => exact .nil
  | cons _ _ _ hOthers ih => exact .cons (fun b hMem => .inl (hOthers.of_mem hMem).1) ih

end Laid

variable {base : Nat} {methods : List MethodDef} {content content' : Bytes}
  {redirects redirects' : List Redirect} {pool pool' : LiteralPool}

/-- One more body goes behind the contents, at the next multiple of four. -/
theorem placeBodies_cons_eq_ok {method : MethodDef} {rest : List MethodDef} {body : MethodBody}
    (hBody : method.body = some body)
    (hPlace : placeBodies base (method :: rest) content redirects pool
      = .ok (content', redirects') pool') :
    ∃ rva code middle, rva.toNat = base + (content.padTo 4).size ∧
      body.encode LiteralPool.intern pool = .ok code middle ∧
      placeBodies base rest (content.padTo 4 ++ code) (⟨method.token.row, rva⟩ :: redirects) middle
        = .ok (content', redirects') pool' := by
  rw [placeBodies, hBody] at hPlace
  obtain ⟨rva, _, hCheck, hPlace⟩ := Edit.bind_eq_ok.1 hPlace
  obtain ⟨hRva, rfl⟩ := Edit.check_eq_ok.1 hCheck
  obtain ⟨code, middle, hCode, hRest⟩ := Edit.bind_eq_ok.1 hPlace
  exact ⟨rva, code, middle, word_eq_ok hRva, hCode, hRest⟩

/-- All bodies are placed, behind the contents that were there. -/
theorem laid_of_placeBodies
    (hPlace : placeBodies base methods content redirects pool = .ok (content', redirects') pool') :
    ∃ blocks, blocks.map (·.method) = methods.filter (·.body.isSome) ∧
      Encodes pool blocks pool' ∧
      redirects' = redirects.reverse ++ blocks.map (Block.redirect base) ∧
      (∀ b ∈ blocks, (b.redirect base).rva.toNat = base + b.start) ∧
      Laid content' content.size blocks ∧ content.size ≤ content'.size ∧
      content.Agree content' 0 content.size := by
  induction methods generalizing content redirects pool with
  | nil =>
      obtain ⟨hSame, rfl⟩ := Edit.pure_eq_ok.1 hPlace
      cases hSame
      exact ⟨[], rfl, .nil, by simp, by simp, .nil, Nat.le_refl _, fun _ _ _ => rfl⟩
  | cons method rest ih =>
      cases hBody : method.body with
      | none =>
          rw [placeBodies, hBody] at hPlace
          rw [List.filter_cons_of_neg (by simp [hBody])]
          exact ih hPlace
      | some body =>
          obtain ⟨rva, code, middle, hRva, hCode, hRest⟩ := placeBodies_cons_eq_ok hBody hPlace
          obtain ⟨blocks, hMethods, hEncodes, hRedirects, hAddresses, hLaid, hSize, hAgree⟩ :=
            ih hRest
          obtain ⟨hFront, hPadded⟩ := agree_padTo content 4 (by decide)
          have hRva' : UInt32.ofNat (base + (content.padTo 4).size) = rva := by
            rw [← hRva, UInt32.ofNat_toNat]
          rw [Array.size_append] at hLaid hSize hAgree
          have hHolds : content'.Holds (content.padTo 4).size code.toList :=
            (holds_end (content.padTo 4) code).congr
              (hAgree.mono (Nat.zero_le _) (by simp)) (by simpa using hSize)
          have hKept : content.Agree (content.padTo 4 ++ code) 0 content.size :=
            hFront.trans ((agree_append _ code).mono (Nat.le_refl _) hPadded)
          refine ⟨⟨method, (content.padTo 4).size, code⟩ :: blocks, ?_, .cons hBody hCode hEncodes,
            ?_, ?_, .cons hPadded ?_ hHolds hLaid, by omega,
            hKept.trans (hAgree.mono (Nat.le_refl _) (by omega))⟩
          · rw [List.map_cons, hMethods, List.filter_cons_of_pos (by simp [hBody])]
          · simp [hRedirects, Block.redirect, hRva']
          · rw [List.forall_mem_cons]
            exact ⟨by rw [Block.redirect, hRva', hRva], hAddresses⟩
          · rw [size_padTo content (by decide)]
            exact dvd_alignUp _ _

end IlSplice.Module
