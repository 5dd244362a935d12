import IlSplice.Proofs.Heap.LiteralPool
import IlSplice.Proofs.Metadata.Located

/-! Writing a module: the steps behind a file that was written, for any modified methods and for
only one. -/

namespace IlSplice.Module

variable {image : Image} {method : MethodDef} {b : MethodBody} {out : Bytes}

/-- A module with a change is written by replacing bodies. Only one without changes is written as it
was. -/
theorem toBytes_of_ne_nil {m : Module} (hImage : m.image = some image)
    (hModified : m.modifiedMethods ≠ []) : m.toBytes = replaceBodies image m.modifiedMethods := by
  rw [toBytes, hImage]
  exact if_neg (by simpa using hModified)

/-- A patch changes a single method, and so a single body is replaced. -/
theorem toBytes_of_modified {m : Module} (hImage : m.image = some image)
    (hModified : m.modifiedMethods = [method]) :
    m.toBytes = replaceBodies image [method] := by
  rw [toBytes_of_ne_nil hImage (by simp [hModified]), hModified]

/-- The new section holds the bodies of the methods and, behind them, the rebuilt metadata. -/
theorem steps_of_replaceBodies {methods : List MethodDef}
    (hWrite : replaceBodies image methods = .ok out) :
    ∃ md p pool pool' bodies redirects rva size metadata data, Metadata.locate image = .ok md ∧
      Placement.of image = .ok p ∧ literalPool md = .ok pool ∧
      placeBodies p.rva methods #[] [] pool = .ok (bodies, redirects) pool' ∧
      md.rebuild pool' redirects = .ok metadata ∧
      word (p.rva + (bodies.padTo 4).size) = .ok rva ∧ word metadata.size = .ok size ∧
      p.append image (bodies.padTo 4 ++ metadata) = .ok data ∧
      redirectHeader md data rva size = .ok out := by
  obtain ⟨md, hMd, hWrite⟩ := Except.bind_eq_ok.1 hWrite
  obtain ⟨p, hPlace, hWrite⟩ := Except.bind_eq_ok.1 hWrite
  obtain ⟨pool, hPool, hWrite⟩ := Except.bind_eq_ok.1 hWrite
  dsimp only at hWrite
  split at hWrite
  · cases hWrite
  rename_i bodies redirects pool' hPlaced
  obtain ⟨rva, hRva, hWrite⟩ := Except.bind_eq_ok.1 hWrite
  obtain ⟨metadata, hMetadata, hWrite⟩ := Except.bind_eq_ok.1 hWrite
  obtain ⟨size, hSize, hWrite⟩ := Except.bind_eq_ok.1 hWrite
  obtain ⟨data, hData, hRedirect⟩ := Except.bind_eq_ok.1 hWrite
  unfold Edit.runOn at hPlaced
  split at hPlaced
  · rename_i result last hBodies
    cases hPlaced
    exact ⟨md, p, pool, pool', bodies, redirects, rva, size, metadata, data, hMd, hPlace, hPool,
      hBodies, hMetadata, hRva, hSize, hData, hRedirect⟩
  · cases hPlaced

/-- With one method, the new section starts with its body. -/
theorem replaceBodies_eq_ok (hBody : method.body = some b)
    (hWrite : replaceBodies image [method] = .ok out) :
    ∃ md p pool pool' code address rva size metadata data, Metadata.locate image = .ok md ∧
      Placement.of image = .ok p ∧ literalPool md = .ok pool ∧
      b.encode LiteralPool.intern pool = .ok code pool' ∧ word p.rva = .ok address ∧
      md.rebuild pool' [⟨method.token.row, address⟩] = .ok metadata ∧
      word (p.rva + (code.padTo 4).size) = .ok rva ∧ word metadata.size = .ok size ∧
      p.append image (code.padTo 4 ++ metadata) = .ok data ∧
      redirectHeader md data rva size = .ok out := by
  obtain ⟨md, p, pool, pool', bodies, redirects, rva, size, metadata, data, hMd, hPlace, hPool,
    hBodies, hMetadata, hRva, hSize, hData, hRedirect⟩ := steps_of_replaceBodies hWrite
  rw [placeBodies, hBody] at hBodies
  obtain ⟨address, _, hCheck, hBodies⟩ := Edit.bind_eq_ok.1 hBodies
  obtain ⟨hAddress, rfl⟩ := Edit.check_eq_ok.1 hCheck
  obtain ⟨code, middle, hCode, hDone⟩ := Edit.bind_eq_ok.1 hBodies
  obtain ⟨hSame, rfl⟩ := Edit.pure_eq_ok.1 hDone
  cases hSame
  have hEmpty : Bytes.padTo #[] 4 ++ code = code := by
    rw [show Bytes.padTo #[] 4 = #[] from rfl, Array.empty_append]
  rw [hEmpty] at hRva hData
  exact ⟨md, p, pool, middle, code, address, rva, size, metadata, data, hMd, hPlace, hPool, hCode,
    hAddress, hMetadata, hRva, hSize, hData, hRedirect⟩

end IlSplice.Module
