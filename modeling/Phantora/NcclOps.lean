import Phantora.CudaCall
import Phantora.Lib.Outcome
import Phantora.Netsim.FlowState

/-!
# Flows of the collective operations

`SimpleRing`: a broadcast sends from the root to every other rank, the other
collectives send around the ring of ranks. Each operation takes the next flow
identifier, which `Flow::new` reads from a global counter, and returns the one
after the flows it makes.
-/

namespace Phantora

open Outcome Netsim

abbrev Trace := List Flow

/-- The host and the device of every rank. -/
abbrev Ranks := List (HostId × ℤ)

namespace SimpleRing

/-- One flow from a rank to the rank a number of places after it. -/
def flowBetween (ranks : Ranks) (size nextFlowId src dst : ℕ) : Except Panic Flow := do
  let source ← unwrap ranks[src]? .rootOutOfRange
  let target ← unwrap ranks[dst]? .rootOutOfRange
  return { id := nextFlowId, bytes := size, src := source.1.hostname, dst := target.1.hostname }

/-- The flows of a list of pairs of ranks. -/
def flows (ranks : Ranks) (size : ℕ) : ℕ → List (ℕ × ℕ) → Except Panic Trace
  | _, [] => .ok []
  | nextFlowId, (src, dst) :: pairs => do
      let flow ← flowBetween ranks size nextFlowId src dst
      let rest ← flows ranks size (nextFlowId + 1) pairs
      return flow :: rest

def bcast (root : ℤ) (ranks : Ranks) (count : ℕ) (dtype : NcclDatatype) (nextFlowId : ℕ) :
    Except Panic Trace :=
  let n := ranks.length
  let size := count * dtype.size
  -- a negative root becomes an index beyond every vector
  let root := if root < 0 then n else root.toNat
  flows ranks size nextFlowId ((List.range (n - 1)).map fun i => (root, (root + (i + 1)) % n))

/-- The pairs of neighbours on the ring. -/
def ring (n : ℕ) : List (ℕ × ℕ) :=
  (List.range n).map fun i => (i, (i + 1) % n)

def allreduce (ranks : Ranks) (count : ℕ) (dtype : NcclDatatype) (nextFlowId : ℕ) :
    Except Panic Trace := do
  let n := ranks.length
  assert (n ≠ 0) Panic.emptyComm
  flows ranks (count * dtype.size * 2 * (n - 1) / n) nextFlowId (ring n)

def allgather (ranks : Ranks) (count : ℕ) (dtype : NcclDatatype) (nextFlowId : ℕ) :
    Except Panic Trace := do
  let n := ranks.length
  assert (n ≠ 0) Panic.emptyComm
  let sendSize := count * dtype.size * n
  flows ranks (sendSize / n * (n - 1)) nextFlowId (ring n)

def reduceScatter (ranks : Ranks) (count : ℕ) (dtype : NcclDatatype) (nextFlowId : ℕ) :
    Except Panic Trace := do
  let n := ranks.length
  assert (n ≠ 0) Panic.emptyComm
  let sendSize := count * dtype.size * n
  flows ranks (sendSize / n * (n - 1)) nextFlowId (ring n)

end SimpleRing

end Phantora
