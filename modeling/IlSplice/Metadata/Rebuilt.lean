import IlSplice.Heap.LiteralPool
import IlSplice.Image.Placement
import IlSplice.Metadata
import IlSplice.Tables.Row

/-!
Metadata with more literals and with methods in other places.

All streams are written again, one behind the other, behind the directory that lists them. Two of
them change: the tables, in which methods get new addresses, and the heap of literals.
-/

namespace IlSplice

/-- The new address of a method. -/
structure Redirect where
  /-- The row of the method. -/
  row : Nat
  rva : UInt32
  deriving DecidableEq, Repr

namespace TableStream

/-- The contents of the stream with new addresses for some methods. -/
def redirect (s : TableStream) (data : Bytes) : List Redirect → Except Fault Bytes
  | [] => .ok data
  | r :: rest => do
    let offset ← s.rowOffset .methodDef r.row
    let column := s.widths.columnOffset .methodDef MethodDefRow.rvaColumn
    s.redirect (← data.overwrite (offset + column) (leBytes 4 r.rva.toNat)) rest

end TableStream

namespace Metadata

/-- The contents of streams in order. The tables and the literals go to the first stream of their
name, and a further one gets nothing. -/
def payloads (md : Metadata) (tables literals : Bytes) :
    List StreamEntry → Except Fault (List Bytes)
  | [] => .ok []
  | entry :: rest => do
    if entry.name = TableStream.streamName then
      return tables :: (← md.payloads #[] literals rest)
    else if entry.name = Literals.streamName then
      return literals :: (← md.payloads tables #[] rest)
    else
      let data ← md.stream? entry.name
      return data.getD #[] :: (← md.payloads tables literals rest)

/-- Lists streams with the places of their contents, from `offset` on. -/
def arrange (offset : Nat) : List (StreamEntry × Bytes) → Except Fault (List StreamEntry)
  | [] => .ok []
  | (entry, data) :: rest => do
    let start ← word offset
    let size ← word data.size
    return ⟨start, size, entry.name⟩ :: (← arrange (offset + data.size) rest)

/-- The streams to write. A heap of literals is added if there was none and it is needed. -/
def withLiterals (root : Root) (pool : LiteralPool) : Root :=
  if (root.stream? Literals.streamName).isNone ∧ 0 < pool.added then
    { root with streams := root.streams ++ [⟨0, 0, Literals.streamName⟩] }
  else root

/-- The whole metadata with the literals of a pool and with methods in other places. -/
def rebuild (md : Metadata) (pool : LiteralPool) (redirects : List Redirect) :
    Except Fault Bytes := do
  let source ← md.stream TableStream.streamName
  let tables ← (← TableStream.ofBytes source).redirect source redirects
  let root := withLiterals md.root pool
  let contents := (← md.payloads tables pool.finish root.streams).map (·.padTo 4)
  let streams ← arrange root.byteSize (root.streams.zip contents)
  let head ← { root with streams := streams }.encode
  return contents.foldl (· ++ ·) head

end Metadata

end IlSplice
