import IlSplice.Main
import IlSplice.Store.Volume
import IlSplice.Proofs.Body.RoundTrip
import IlSplice.Proofs.Patch.Window
import IlSplice.Proofs.Patch.Stability
import IlSplice.Proofs.Body.Closed
import IlSplice.Proofs.Bytes.Compressed
import IlSplice.Proofs.Bytes.Overwrite
import IlSplice.Proofs.Heap.LiteralPool
import IlSplice.Proofs.Image.Headers
import IlSplice.Proofs.Image.Placement
import IlSplice.Proofs.Metadata.Located
import IlSplice.Proofs.Metadata.Rebuilt
import IlSplice.Proofs.Module.Reload
import IlSplice.Proofs.Module.Rewritten
import IlSplice.Proofs.Module.Write
import IlSplice.Proofs.Patch.Faithful
import IlSplice.Proofs.Code.Widening
import IlSplice.Proofs.Heap.Requests
import IlSplice.Proofs.Module.Readable
import IlSplice.Proofs.Patch.Shape
import IlSplice.Proofs.Patch.Effect
import IlSplice.Proofs.Module.Frame
import IlSplice.Proofs.Module.Bodies
import IlSplice.Proofs.Module.Appended
import IlSplice.Proofs.Patch.Repeated
import IlSplice.Proofs.Store.AllOrNothing
import IlSplice.Proofs.Code.Grammar
import IlSplice.Proofs.Code.Unchanged
import IlSplice.Proofs.Code.Contiguous
import IlSplice.Proofs.Machine.Untrusted
import IlSplice.Proofs.Body.Normalized
import IlSplice.Proofs.Metadata.Version
import IlSplice.Proofs.Module.Contents
import IlSplice.Proofs.Tables.Tiling
import IlSplice.Proofs.Module.Callees
import IlSplice.Proofs.Module.MethodLists
import IlSplice.Proofs.Image.Translation
import IlSplice.Proofs.Module.Alignment
import IlSplice.Proofs.Body.Section
import IlSplice.Proofs.Cli.Disassembly
import IlSplice.Proofs.Listing.History
import IlSplice.Proofs.Body.Chain
