import Mathlib.Algebra.BigOperators.Group.List.Basic
import Mathlib.Data.Rat.Defs
import Phantora.Netsim.Architecture

/-!
# Topology descriptions

A description of a cluster can be read without building it. The quantities that
it names are derived twice, once for the description and once while building;
they agree except for the bandwidth of the racks of a fat tree.
-/

namespace Phantora.Netsim

open Outcome

/-- The arguments of a topology of racks below one switch; a bandwidth that is not a rational is
none. -/
structure ArbitraryArgs where
  nracks : ℕ
  rackSize : ℕ
  hostBw : ℚ
  rackBw : Option ℚ
deriving DecidableEq, Repr

/-- A topology, with bandwidths in Gbps. -/
inductive TopoArgs where
  | fatTree (nports : ℕ) (bandwidth oversubRatio : ℚ)
  | arbitrary (nracks rackSize : ℕ) (hostBw rackBw : ℚ)
  | twoLayerMultiPath (nspines nracks rackSize : ℕ) (hostBw rackUplinkPortBw : ℚ)
deriving DecidableEq, Repr

namespace TopoArgs

def byArbitraryTopo : TopoArgs → Except Panic ArbitraryArgs
  | .arbitrary nracks rackSize hostBw rackBw => .ok ⟨nracks, rackSize, hostBw, some rackBw⟩
  | .fatTree nports bandwidth oversubRatio => do
      assert (nports % 2 = 0) Panic.oddPorts
      let numPods := nports
      let numEdgesInPod := nports / 2
      let numEdges := numPods * numEdgesInPod
      let numHostsUnderEdge := nports / 2
      return ⟨numEdges, numHostsUnderEdge, bandwidth,
        if oversubRatio = 0 then none else some (bandwidth * numHostsUnderEdge / oversubRatio)⟩
  | .twoLayerMultiPath nspines nracks rackSize hostBw rackUplinkPortBw =>
      .ok ⟨nracks, rackSize, hostBw, some (rackUplinkPortBw * nspines)⟩

/-- Number of roots. -/
def nroots : TopoArgs → ℕ
  | .arbitrary .. => 1
  | .fatTree .. => 1
  | .twoLayerMultiPath nspines .. => nspines

/-- Number of racks. -/
def nracks : TopoArgs → Except Panic ℕ
  | .arbitrary nracks _ _ _ => .ok nracks
  | topo => do return (← topo.byArbitraryTopo).nracks

/-- Number of hosts in a rack. -/
def rackSize : TopoArgs → Except Panic ℕ
  | .arbitrary _ rackSize _ _ => .ok rackSize
  | topo => do return (← topo.byArbitraryTopo).rackSize

/-- Bandwidth of a host. -/
def hostBw : TopoArgs → Except Panic ℚ
  | .arbitrary _ _ hostBw _ => .ok hostBw
  | topo => do return (← topo.byArbitraryTopo).hostBw

/-- Bandwidth of a rack. -/
def rackBw : TopoArgs → Except Panic (Option ℚ)
  | .arbitrary _ _ _ rackBw => .ok (some rackBw)
  | .fatTree _ bandwidth _ => .ok (some bandwidth)
  | topo => do return (← topo.byArbitraryTopo).rackBw

/-- `config::build_cloud`. -/
def buildCloud {β : Type} (arith : Arithmetic β) : TopoArgs → Except Panic (Growing β)
  | .fatTree nports bandwidth oversubRatio => do
      let cluster ← buildFatreeFake arith nports (arith.gbps bandwidth) oversubRatio
      assert (cluster.numHosts = nports * nports * nports / 4) Panic.wrongHostCount
      return cluster
  | .arbitrary nracks rackSize hostBw rackBw =>
      buildArbitraryCluster nracks rackSize (arith.gbps hostBw) (arith.gbps rackBw)
  | .twoLayerMultiPath nspines nracks rackSize hostBw rackUplinkPortBw =>
      buildTwolayerMultipathCluster nspines nracks rackSize (arith.gbps hostBw)
        (arith.gbps rackUplinkPortBw)

/-- A fat tree has switches with an even number of ports. -/
def EvenPorts : TopoArgs → Prop
  | .fatTree nports _ _ => nports % 2 = 0
  | _ => True

end TopoArgs

namespace Growing

variable {β : Type} {g : Growing β}

/-- The sum of some bandwidths, if all are rationals. -/
def total : List (Option ℚ) → Option ℚ
  | [] => some 0
  | bandwidth :: rest => do
      let bandwidth ← bandwidth
      let sum ← total rest
      return bandwidth + sum

/-- The cluster is one of the described sizes and bandwidths, these in Gbps. -/
structure Matches (g : Growing (Option ℚ)) (nroots nracks rackSize : ℕ) (hostBw : ℚ)
    (rackBw : Option ℚ) : Prop where
  roots : (g.nodes.countP fun node => node.depth = 1 ∧ ¬node.isHost = true) = nroots
  numRacks : g.numRacks = nracks
  racks : (g.nodes.filter Node.isTor).map Node.name = (List.range nracks).map torName
  hosts : (g.nodes.filter Node.isHost).map Node.name =
    (List.range (nracks * rackSize)).map hostName
  attached : ∀ i < nracks * rackSize, g.AttachedOnly (hostName i) (torName (i / rackSize))
    (some (hostBw * 1000000000))
  uplinks : ∀ i < nracks, ∃ tor node, g.nodeMap (torName i) = some tor ∧
    g.nodes[tor]? = some node ∧
      total (node.parent.filterMap fun link => g.edges[link]?.map Edge.bandwidth) =
        rackBw.map (· * 1000000000)

theorem bandwidths_eq (node : Node) :
    (node.parent.filterMap fun link => g.edges[link]?.map Edge.bandwidth) =
      (node.parent.filterMap g.leadsTo).map Prod.snd := by
  rw [List.map_filterMap]
  apply List.filterMap_congr
  intro link _
  rw [leadsTo, Option.map_map]
  rfl

end Growing

theorem Racked.matches {roots : List String} {uplinkBw rackBw : Option ℚ} {hostBw : ℚ}
    {rackSize racks : ℕ} {g : Growing (Option ℚ)}
    (racked : Racked roots uplinkBw rackSize (some (hostBw * 1000000000)) racks
      (racks * rackSize) g)
    (names : RootNames roots)
    (sum : Growing.total (roots.map fun _ => uplinkBw) = rackBw.map (· * 1000000000)) :
    g.Matches roots.length racks rackSize hostBw rackBw where
  roots := by
    have count := congrArg (List.countP fun node => !node.isHost) racked.rootKinds
    rw [List.countP_filter, Growing.kinds, List.countP_map, List.countP_map] at count
    have all : roots.countP ((fun node => !node.isHost) ∘ fun root => Node.new root 1 false) =
        roots.length := List.countP_eq_length.mpr fun _ _ => rfl
    rw [all] at count
    rw [← count]
    apply List.countP_congr
    intro node _
    simp [Node.new, and_comm]
  numRacks := by
    have count := congrArg List.length racked.torKinds
    rw [racked.grown.numRacks, List.countP_eq_length_filter, count]
    simp
  racks := by
    have found := congrArg (List.map Node.name) racked.torKinds
    rw [Growing.kinds, List.filter_map, List.map_map, List.map_map] at found
    exact found
  hosts := racked.hostNames
  attached i lt := racked.attachedOnly names lt (Nat.div_lt_of_lt_mul (Nat.mul_comm _ _ ▸ lt))
  uplinks i lt := by
    have wired := racked.grown.wired
    rcases wired.exists_of_place (racked.atTors i lt) with
      ⟨tor, node, atTor, isNode, _, _, _, uplinks⟩
    refine ⟨tor, node, atTor, isNode, ?_⟩
    rw [Growing.bandwidths_eq, uplinks, List.map_map]
    exact sum

theorem total_replicate (n : ℕ) (bandwidth : ℚ) :
    Growing.total (List.replicate n (some bandwidth)) = some (bandwidth * n) := by
  induction n with
  | zero => simp [Growing.total]
  | succ n ih =>
      rw [List.replicate_succ, Growing.total, ih]
      simp only [Option.bind_eq_bind, Option.bind_some, Option.pure_def, Option.some.injEq]
      push_cast
      ring

namespace TopoArgs

/-- The built cluster, the quantities read off the description, and those of the topology of
racks that it stands for agree. -/
def Agrees (topo : TopoArgs) : Prop :=
  ∃ cluster nracks rackSize hostBw rackBw, topo.buildCloud .exact = .ok cluster ∧
    topo.nracks = .ok nracks ∧ topo.rackSize = .ok rackSize ∧ topo.hostBw = .ok hostBw ∧
      topo.rackBw = .ok rackBw ∧
        topo.byArbitraryTopo = .ok ⟨nracks, rackSize, hostBw, rackBw⟩ ∧
          cluster.Matches topo.nroots nracks rackSize hostBw rackBw

/-- If the topology is a fat tree, its racks have the bandwidth of one host. -/
def RackOfOneHost : TopoArgs → Prop
  | .fatTree nports bandwidth oversubRatio =>
      oversubRatio ≠ 0 ∧ (bandwidth = 0 ∨ oversubRatio = (nports / 2 : ℕ))
  | _ => True

/-- The racks of a fat tree have the bandwidth of one host only in a degenerate case. -/
theorem rackBw_eq_iff {bandwidth oversubRatio : ℚ} {hosts : ℕ} :
    (if oversubRatio = 0 then none else some (bandwidth * hosts / oversubRatio)) =
      some bandwidth ↔ oversubRatio ≠ 0 ∧ (bandwidth = 0 ∨ oversubRatio = hosts) := by
  by_cases zero : oversubRatio = 0
  · simp [zero]
  · rw [if_neg zero, Option.some.injEq, div_eq_iff zero, mul_eq_mul_left_iff]
    rw [or_comm, eq_comm (a := oversubRatio)]
    simp [zero]

theorem fatTree_hosts {nports : ℕ} (even : nports % 2 = 0) :
    nports * (nports / 2) * (nports / 2) = nports * nports * nports / 4 := by
  rcases Nat.dvd_of_mod_eq_zero even with ⟨half, rfl⟩
  have whole : 2 * half * (2 * half) * (2 * half) = 4 * (2 * half * half * half) := by ring
  rw [Nat.mul_div_cancel_left half (by decide), whole, Nat.mul_div_cancel_left _ (by decide)]

theorem byArbitraryTopo_fatTree {nports : ℕ} (even : nports % 2 = 0)
    (bandwidth oversubRatio : ℚ) : byArbitraryTopo (.fatTree nports bandwidth oversubRatio) =
      .ok ⟨nports * (nports / 2), nports / 2, bandwidth, if oversubRatio = 0 then none
        else some (bandwidth * (nports / 2 : ℕ) / oversubRatio)⟩ := by
  simp only [byArbitraryTopo, bind_eq_ok, assert_eq_ok, pure_eq_ok]
  exact ⟨⟨⟩, even, trivial⟩

/-- Building a fat tree succeeds, with the number of hosts that is asserted. -/
theorem buildCloud_fatTree {nports : ℕ} (even : nports % 2 = 0) (bandwidth oversubRatio : ℚ) :
    ∃ cluster, buildCloud .exact (.fatTree nports bandwidth oversubRatio) = .ok cluster ∧
      Racked ["cloud"]
        (Arithmetic.exact.dividedBy (some (bandwidth * 1000000000 * (nports / 2 : ℕ)))
          oversubRatio)
        (nports / 2) (some (bandwidth * 1000000000)) (nports * (nports / 2))
        (nports * (nports / 2) * (nports / 2)) cluster := by
  rcases buildFatreeFake_racked .exact even (some (bandwidth * 1000000000)) oversubRatio with
    ⟨cluster, run, racked⟩
  have count : cluster.numHosts = nports * nports * nports / 4 := by
    have hosts := congrArg List.length racked.hostKinds
    rw [racked.grown.numHosts, List.countP_eq_length_filter, hosts, ← fatTree_hosts even]
    simp
  refine ⟨cluster, ?_, racked⟩
  simp only [buildCloud, bind_eq_ok, assert_eq_ok, pure_eq_ok]
  exact ⟨cluster, run, ⟨⟩, count, rfl⟩

/-- What is built for a description is what the topology of racks that it stands for says. -/
theorem buildCloud_matches (topo : TopoArgs) (even : topo.EvenPorts) : ∃ cluster args,
    topo.buildCloud .exact = .ok cluster ∧ topo.byArbitraryTopo = .ok args ∧
      cluster.Matches topo.nroots args.nracks args.rackSize args.hostBw args.rackBw := by
  cases topo with
  | arbitrary nracks rackSize hostBw rackBw =>
      rcases buildArbitraryCluster_racked nracks rackSize (some (hostBw * 1000000000))
        (some (rackBw * 1000000000)) with ⟨cluster, run, racked⟩
      refine ⟨cluster, _, run, rfl, ?_⟩
      exact racked.matches rootNames_cloud (by simpa using total_replicate 1 _)
  | twoLayerMultiPath nspines nracks rackSize hostBw rackUplinkPortBw =>
      rcases buildTwolayerMultipathCluster_racked nspines nracks rackSize
        (some (hostBw * 1000000000)) (some (rackUplinkPortBw * 1000000000)) with
        ⟨cluster, run, racked⟩
      refine ⟨cluster, _, run, rfl, ?_⟩
      have sum : Growing.total (((List.range nspines).map spineName).map fun _ =>
          some (rackUplinkPortBw * 1000000000)) =
            (some (rackUplinkPortBw * nspines)).map (· * 1000000000) := by
        rw [List.map_const', List.length_map, List.length_range, total_replicate, Option.map_some,
          mul_right_comm]
      have matched := racked.matches (rootNames_spines nspines) sum
      rw [List.length_map, List.length_range] at matched
      exact matched
  | fatTree nports bandwidth oversubRatio =>
      rcases buildCloud_fatTree even bandwidth oversubRatio with ⟨cluster, run, racked⟩
      refine ⟨cluster, _, run, byArbitraryTopo_fatTree even bandwidth oversubRatio, ?_⟩
      refine racked.matches rootNames_cloud ?_
      by_cases zero : oversubRatio = 0
      · simp [Arithmetic.exact, zero, Growing.total]
      · have uplink : bandwidth * 1000000000 * (nports / 2 : ℕ) / oversubRatio =
            bandwidth * (nports / 2 : ℕ) / oversubRatio * 1000000000 := by ring
        simp only [Arithmetic.exact, if_neg zero, Option.map_some, uplink]
        simpa using total_replicate 1 _

/-- The other quantities are read off the topology of racks. -/
theorem accessors_eq {topo : TopoArgs} {args : ArbitraryArgs}
    (described : topo.byArbitraryTopo = .ok args) : topo.nracks = .ok args.nracks ∧
      topo.rackSize = .ok args.rackSize ∧ topo.hostBw = .ok args.hostBw := by
  cases topo with
  | arbitrary =>
      cases described
      exact ⟨rfl, rfl, rfl⟩
  | twoLayerMultiPath =>
      cases described
      exact ⟨rfl, rfl, rfl⟩
  | fatTree =>
      simp only [TopoArgs.nracks, TopoArgs.rackSize, TopoArgs.hostBw, described]
      exact ⟨rfl, rfl, rfl⟩

theorem agrees_iff (topo : TopoArgs) (even : topo.EvenPorts) : topo.Agrees ↔
    topo.RackOfOneHost := by
  rcases topo.buildCloud_matches even with ⟨cluster, args, run, described, matched⟩
  rcases accessors_eq described with ⟨nracks, rackSize, hostBw⟩
  have rackOnly : topo.Agrees ↔ topo.rackBw = .ok args.rackBw := by
    constructor
    · rintro ⟨_, _, _, _, rackBw, _, _, _, _, isRackBw, same, _⟩
      rw [described, Except.ok.injEq] at same
      rw [same, isRackBw]
    · intro rackBw
      exact ⟨cluster, _, _, _, _, run, nracks, rackSize, hostBw, rackBw, described, matched⟩
  rw [rackOnly]
  cases topo with
  | arbitrary =>
      cases described
      exact iff_of_true rfl trivial
  | twoLayerMultiPath =>
      cases described
      exact iff_of_true rfl trivial
  | fatTree nports bandwidth oversubRatio =>
      rw [byArbitraryTopo_fatTree even, Except.ok.injEq] at described
      rw [← described, RackOfOneHost, ← rackBw_eq_iff, TopoArgs.rackBw, Except.ok.injEq]
      exact eq_comm

/-- Two hosts in a rack, with twice the bandwidth below the switch as above it. -/
theorem agrees_fatTree : (TopoArgs.fatTree 4 100 2).Agrees :=
  (agrees_iff (.fatTree 4 100 2) rfl).mpr ⟨by norm_num, Or.inr (by norm_num)⟩

/-- Two hosts of 100 Gbps make a rack of 200 Gbps, which is described as one of 100 Gbps. -/
theorem not_agrees_fatTree : ¬∀ topo : TopoArgs, topo.EvenPorts → topo.Agrees := by
  intro agrees
  rcases agrees (.fatTree 4 100 1) rfl with ⟨_, _, _, _, rackBw, _, _, _, _, isRackBw, same, _⟩
  rw [byArbitraryTopo_fatTree rfl, Except.ok.injEq, ArbitraryArgs.mk.injEq] at same
  have isHostBw : some 100 = rackBw := Except.ok.inj isRackBw
  rw [← isHostBw] at same
  norm_num at same

end TopoArgs

end Phantora.Netsim
