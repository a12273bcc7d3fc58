import Phantora.Basic
import Phantora.Lib.Outcome

/-!
# Clusters and routes

The network topology: nodes in layers, one directed link for each direction of
a cable, and the single-path route search between two nodes of equal depth.
-/

namespace Phantora.Netsim

abbrev NodeIx := ℕ
abbrev LinkIx := ℕ

/-- A host or a switch; `parent` and `children` hold the links to them. -/
structure Node where
  name : String
  depth : ℕ
  isHost : Bool
  parent : List LinkIx
  children : List LinkIx
deriving DecidableEq, Repr

/-- A directed link with its end points and its bandwidth in bit/s. -/
structure Link where
  source : NodeIx
  target : NodeIx
  bandwidth : ℕ
deriving DecidableEq, Repr

/-- The network topology and hardware configuration. -/
structure Cluster where
  nodes : List Node
  links : List Link
  nodeMap : String → Option NodeIx

/-- A path that a flow goes through. -/
structure Route where
  source : NodeIx
  target : NodeIx
  path : List LinkIx
deriving DecidableEq, Repr

instance : Inhabited Route := ⟨⟨0, 0, []⟩⟩

namespace Cluster

open Outcome

/-- The bandwidth of a link. -/
def bandwidth (cluster : Cluster) (link : LinkIx) : ℕ :=
  (cluster.links[link]?.map Link.bandwidth).getD 0

/-- The link in the other direction of the same cable. -/
def getReverseLink (link : LinkIx) : LinkIx :=
  link ^^^ 1

/-- The first link of a node to its parents, and the node it leads to. -/
def uplink (cluster : Cluster) (node : NodeIx) : Except Panic (LinkIx × NodeIx) := do
  let node ← unwrap cluster.nodes[node]? .unknownNode
  let link ← unwrap node.parent[0]? .noParent
  let edge ← unwrap cluster.links[link]? .unknownNode
  return (link, edge.target)

/-- Climb from both ends until they meet; the second path is collected downwards. -/
def climb (cluster : Cluster) : ℕ → NodeIx → NodeIx → List LinkIx → List LinkIx →
    Except Panic (NodeIx × NodeIx × List LinkIx × List LinkIx)
  | 0, x, y, path1, path2 => .ok (x, y, path1, path2)
  | 1, x, y, path1, path2 => .ok (x, y, path1, path2)
  | depth + 2, x, y, path1, path2 =>
      if x = y then .ok (x, y, path1, path2)
      else do
        let (parx, x) ← cluster.uplink x
        let (pary, y) ← cluster.uplink y
        cluster.climb (depth + 1) x y (path1 ++ [parx]) (getReverseLink pary :: path2)

/-- The route between two named nodes; the hint carries the virtual addresses. -/
def resolveRoute (cluster : Cluster) (src dst : String) (vsrc vdst : Option String) :
    Except Panic Route := do
  let srcId ← unwrap (cluster.nodeMap src) .unknownNode
  let dstId ← unwrap (cluster.nodeMap dst) .unknownNode
  let srcNode ← unwrap cluster.nodes[srcId]? .unknownNode
  let dstNode ← unwrap cluster.nodes[dstId]? .unknownNode
  assert (srcNode.depth = dstNode.depth) Panic.depthMismatch
  if srcId = dstId ∧ vsrc.isSome ∧ vdst.isSome ∧ vsrc ≠ vdst then
    let (parx, _) ← cluster.uplink srcId
    return ⟨srcId, dstId, [parx, getReverseLink parx]⟩
  else
    let (x, y, path1, path2) ← cluster.climb srcNode.depth srcId dstId [] []
    assert (x = y) Panic.routeNotFound
    return ⟨srcId, dstId, path1 ++ path2⟩

/-- Two hosts below one switch, joined by links of one byte a nanosecond. -/
def pair : Cluster where
  nodes := [⟨"switch", 1, false, [], [1, 3]⟩, ⟨"left", 2, true, [0], []⟩,
    ⟨"right", 2, true, [2], []⟩]
  links := [⟨1, 0, 8000000000⟩, ⟨0, 1, 8000000000⟩, ⟨2, 0, 8000000000⟩, ⟨0, 2, 8000000000⟩]
  nodeMap name := if name = "left" then some 1 else if name = "right" then some 2 else none

end Cluster

end Phantora.Netsim
