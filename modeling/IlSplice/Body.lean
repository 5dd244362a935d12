import IlSplice.Body.Clause
import IlSplice.Body.Header
import IlSplice.Code.Decoded
import IlSplice.Code.Encoded

/-!
Method bodies.

A body is read with all offsets turned into instructions: branch targets, and the bounds of
exception handlers as well. It can therefore be edited freely, and writing it computes all offsets
anew.
-/

namespace IlSplice

/-- An exception handler. End bounds are exclusive, and nothing stands for the end of the code. -/
structure Handler where
  flags : ClauseFlags
  tryStart : Handle
  tryEnd : Option Handle
  handlerStart : Handle
  handlerEnd : Option Handle
  /-- Where the filter starts, for a filter clause. -/
  filterStart : Option Handle
  /-- The type that is caught, for a catch clause. -/
  classToken : Option Token
  deriving DecidableEq, Repr

namespace Handler

/-- The instructions that the handler refers to. -/
def bounds (h : Handler) : List Handle :=
  [h.tryStart, h.handlerStart] ++ h.tryEnd.toList ++ h.handlerEnd.toList ++ h.filterStart.toList

/-- The instruction at an offset that cannot be the end of the code. -/
def startAt (d : Decoded) (offset : Nat) : Except Fault Handle := do
  match ← d.instructionAt offset with
  | some handle => .ok handle
  | none => .error .clauseAtEnd

/-- The instruction behind `length` bytes from an offset. -/
def endAt (d : Decoded) (offset length : Nat) : Except Fault (Option Handle) :=
  if offset + length < 0x100000000 then d.instructionAt (offset + length)
  else .error .clauseOverflow

/-- The handler that a clause stands for. -/
def ofClause (d : Decoded) (c : Clause) : Except Fault Handler := do
  let filterStart ←
    if c.flags.isFilter then some <$> startAt d c.classOrFilter.toNat else pure none
  let classToken := if c.flags.isCatch then some ⟨c.classOrFilter⟩ else none
  let tryStart ← startAt d c.tryOffset.toNat
  let tryEnd ← endAt d c.tryOffset.toNat c.tryLength.toNat
  let handlerStart ← startAt d c.handlerOffset.toNat
  let handlerEnd ← endAt d c.handlerOffset.toNat c.handlerLength.toNat
  return ⟨c.flags, tryStart, tryEnd, handlerStart, handlerEnd, filterStart, classToken⟩

/-- The clause that stands for the handler. -/
def toClause (e : Encoded) (h : Handler) : Except Fault Clause := do
  let tryStart ← e.offsetOf h.tryStart
  let handlerStart ← e.offsetOf h.handlerStart
  let classOrFilter ← match h.filterStart, h.classToken with
    | some filter, _ => e.offsetOf filter
    | none, some token => pure token.value.toNat
    | none, none => pure 0
  let tryEnd ← e.offsetOf h.tryEnd
  let handlerEnd ← e.offsetOf h.handlerEnd
  if tryEnd < tryStart ∨ handlerEnd < handlerStart then .error .clauseInverted
  else
    return ⟨h.flags, UInt32.ofNat tryStart, UInt32.ofNat (tryEnd - tryStart),
      UInt32.ofNat handlerStart, UInt32.ofNat (handlerEnd - handlerStart),
      UInt32.ofNat classOrFilter⟩

end Handler

/-- The body of a method. -/
structure MethodBody where
  maxStack : UInt16
  /-- The signature of the locals, null for a method without locals. -/
  locals : Token
  initLocals : Bool
  listing : Listing
  /-- The exception handlers, in the order of their table. -/
  handlers : List Handler

namespace MethodBody

/-- Reads a body. Behind it the data may go on. -/
def scan (resolver : Resolver) : Scan MethodBody := do
  let start ← Scan.position
  let header ← MethodHeader.scan
  let code ← Scan.bytes header.codeSize
  let decoded ← Scan.check (Decoded.ofCode code resolver)
  let clauses ← if header.moreSections then Clause.scanSections start [] else pure []
  let handlers ← Scan.check (clauses.mapM (Handler.ofClause decoded))
  return ⟨header.maxStack, header.locals, header.initLocals, decoded.listing, handlers⟩

/-- The bytes of the body: header, code and exception clauses. A fat body has to be placed at a
multiple of four. -/
def encode (b : MethodBody) (intern : Interner σ) : Edit σ Bytes := do
  let code ← Encoded.ofListing b.listing intern
  Edit.check fun _ => do
    let clauses ← b.handlers.mapM (Handler.toClause code)
    let header ← MethodHeader.encode code.code.size b.maxStack b.locals b.initLocals
      (!clauses.isEmpty)
    let body : Bytes := header.toArray ++ code.code
    if clauses.isEmpty then return body
    else return body.padTo 4 ++ (← Clause.encodeSection clauses).toArray

/-- Some branch or exception handler refers to the instruction. -/
def isReferenced (b : MethodBody) (h : Handle) : Bool :=
  b.listing.entries.any (fun (_, i) => i.targets.contains h)
    || b.handlers.any (fun handler => handler.bounds.contains h)

/-- Changes the listing of a body. -/
def editListing (edit : Edit Listing α) : Edit MethodBody α := fun b =>
  match edit b.listing with
  | .ok value listing => .ok value { b with listing := listing }
  | .error fault listing => .error fault { b with listing := listing }

end MethodBody

end IlSplice
