import ParFlow.Lib.GhostExchange
import ParFlow.Grid.SubgridDefs
import ParFlow.Comm.ComputeDefs
import ParFlow.Comm.PackAddress

/-! Communication packages (`NewCommPkg` in `communication.c`, `NewVectorCommPkg` in `vector.c`) and the
exchange that `InitVectorUpdate` starts with `amps_IExchangePackage` and `FinalizeVectorUpdate` waits for. -/

namespace ParFlow

open GhostExchange

/-- The ranks with their invoices. An invoice lists the descriptions of its subregions. -/
structure CommPkg where
  sends : List (ℤ × List LoopArray)
  recvs : List (ℤ × List LoopArray)

/-- The subregions of one process, each described in the data space of its subgrid. -/
def newInvoice (region : Region) (dataSpace : SubgridArray) (numVars proc : ℤ) : List LoopArray :=
  (dataSpace.zip region).zipIdx.flatMap fun d =>
    (d.1.2.filter fun commSr => commSr.process = proc).map fun commSr => newCommPkgInfo d.1.1 commSr d.2 numVars

def newCommPkg (sendRegion recvRegion : Region) (dataSpace : SubgridArray) (numVars : ℤ) : CommPkg where
  sends := (procArray sendRegion.flatten).map fun proc => (proc, newInvoice sendRegion dataSpace numVars proc)
  recvs := (procArray recvRegion.flatten).map fun proc => (proc, newInvoice recvRegion dataSpace numVars proc)

/-- `none` is the error for more than one subgrid. -/
def newVectorCommPkg (grid : Grid) (numGhost : ℤ) (computePkg : ComputePkg) : Option CommPkg :=
  if grid.subgrids.length > 1 then none
  else some (newCommPkg computePkg.sendRegion computePkg.recvRegion (grid.subgrids.map (ghostSpace · numGhost)) 1)

/-- The addresses of an invoice, in the order of its message. -/
def invoiceAddresses (method : PackMethod) (invoices : List (ℤ × List LoopArray)) (proc : ℤ) : List ℤ :=
  ((invoices.lookup proc).getD []).flatMap fun info => method.addresses info

/-- What `amps_IExchangePackage` starts on each process. -/
def exchangePlan (pkg : ℤ → CommPkg) (method : ℤ → PackMethod) : Plan ℤ ℤ where
  dests p := (pkg p).sends.map fun i => i.1
  srcs p := (pkg p).recvs.map fun i => i.1
  out p q := invoiceAddresses (method p) (pkg p).sends q
  into p q := invoiceAddresses (method p) (pkg p).recvs q

end ParFlow
