import Mathlib.Data.List.Range
import Phantora.Netsim.FlowState
import Phantora.Netsim.Topology

/-!
# Architectures

The clusters that are built from a description of their sizes and bandwidths:
racks of hosts below one switch of the cloud, or below a layer of spines. A fat
tree is built as racks below the cloud.
-/

namespace Phantora.Netsim

open Outcome

def spineName (i : ℕ) : String :=
  "spine_" ++ toString i

def torName (i : ℕ) : String :=
  "tor_" ++ toString i

def hostName (i : ℕ) : String :=
  "host_" ++ toString i

theorem toString_inj {i j : ℕ} : toString i = toString j ↔ i = j := by
  constructor
  · intro same
    have digits : Nat.toDigits 10 i = Nat.toDigits 10 j := by
      simpa [Nat.toString_eq_repr, Nat.toList_repr] using congrArg String.toList same
    calc i = Nat.ofDigitChars 10 (Nat.toDigits 10 i) 0 :=
        (Nat.ofDigitChars_toDigits (by decide) (by decide)).symm
      _ = j := by rw [digits, Nat.ofDigitChars_toDigits (by decide) (by decide)]
  · exact fun same => congrArg toString same

@[simp]
theorem spineName_inj {i j : ℕ} : spineName i = spineName j ↔ i = j := by
  rw [← toString_inj, spineName, spineName]
  simp

@[simp]
theorem torName_inj {i j : ℕ} : torName i = torName j ↔ i = j := by
  rw [← toString_inj, torName, torName]
  simp

@[simp]
theorem hostName_inj {i j : ℕ} : hostName i = hostName j ↔ i = j := by
  rw [← toString_inj, hostName, hostName]
  simp

theorem ne_of_head_ne {left right : String} (heads : left.toList.head? ≠ right.toList.head?) :
    left ≠ right := by
  rintro rfl
  exact heads rfl

theorem torName_ne_hostName (i j : ℕ) : torName i ≠ hostName j :=
  ne_of_head_ne (by simp [torName, hostName])

theorem isTor_torName (i : ℕ) : (Node.new (torName i) 2 false).isTor = true := by
  simp [Node.isTor, Node.new, torName]

/-- What building does with bandwidths. -/
structure Arithmetic (β : Type) where
  gbps : ℚ → β
  times : β → ℕ → β
  dividedBy : β → ℚ → β

/-- Machine words, to which the results of float operations are cut. -/
def Arithmetic.words : Arithmetic ℕ where
  gbps value := asU64 (value * 1000000000)
  times bandwidth factor := asU64 (bandwidth * factor)
  dividedBy := divBandwidth

/-- Exact rationals; what is divided by zero is none. -/
def Arithmetic.exact : Arithmetic (Option ℚ) where
  gbps value := some (value * 1000000000)
  times bandwidth factor := bandwidth.map (· * factor)
  dividedBy bandwidth divisor := if divisor = 0 then none else bandwidth.map (· / divisor)

variable {β : Type}

/-- Add one host below a switch. -/
def addHost (tor : String) (hostBw : β) (cluster : Growing β) (j : ℕ) :
    Except Panic (Growing β) := do
  let cluster ← cluster.addNode (Node.new (hostName j) 3 true)
  cluster.addLinkByName tor (hostName j) hostBw

/-- Add a rack: its switch, the links to `roots`, and the hosts from the next id on. -/
def addRack (roots : List String) (uplinkBw : β) (rackSize : ℕ) (hostBw : β)
    (acc : Growing β × ℕ) (i : ℕ) : Except Panic (Growing β × ℕ) := do
  let (cluster, hostId) := acc
  let cluster ← cluster.addNode (Node.new (torName i) 2 false)
  let cluster ← roots.foldlM
    (fun cluster root => Growing.addLinkByName cluster root (torName i) uplinkBw) cluster
  let cluster ← (List.range' hostId rackSize).foldlM (addHost (torName i) hostBw) cluster
  return (cluster, hostId + rackSize)

def buildArbitraryCluster (nracks rackSize : ℕ) (hostBw rackBw : β) :
    Except Panic (Growing β) := do
  let cluster ← Growing.addNode {} (Node.new "cloud" 1 false)
  let (cluster, _) ← (List.range nracks).foldlM (addRack ["cloud"] rackBw rackSize hostBw)
    (cluster, 0)
  return cluster

def buildFatreeFake (arith : Arithmetic β) (nports : ℕ) (bw : β) (oversubRatio : ℚ) :
    Except Panic (Growing β) := do
  assert (nports % 2 = 0) Panic.oddPorts
  let numPods := nports
  let numEdgesInPod := nports / 2
  let numEdges := numPods * numEdgesInPod
  let numHostsUnderEdge := nports / 2
  buildArbitraryCluster numEdges numHostsUnderEdge bw
    (arith.dividedBy (arith.times bw numHostsUnderEdge) oversubRatio)

def buildTwolayerMultipathCluster (nspines nracks rackSize : ℕ) (hostBw rackUplinkPortBw : β) :
    Except Panic (Growing β) := do
  let cluster ← (List.range nspines).foldlM
    (fun cluster i => Growing.addNode cluster (Node.new (spineName i) 1 false)) {}
  let (cluster, _) ← (List.range nracks).foldlM
    (addRack ((List.range nspines).map spineName) rackUplinkPortBw rackSize hostBw) (cluster, 0)
  return cluster

/-- Names that are not those of racks or hosts. -/
structure RootNames (roots : List String) : Prop where
  nodup : roots.Nodup
  notTor : ∀ root ∈ roots, (Node.new root 1 false).isTor = false
  notHost : ∀ root ∈ roots, ∀ j, root ≠ hostName j

/-- A cluster with some roots, complete racks of switches, and hosts below them. -/
structure Racked (roots : List String) (uplinkBw : β) (rackSize : ℕ) (hostBw : β)
    (racks hosts : ℕ) (g : Growing β) : Prop where
  grown : g.Grown
  atRoots : ∀ root ∈ roots, g.place root = some ⟨1, false, []⟩
  atTors : ∀ i < racks, g.place (torName i) =
    some ⟨2, false, roots.map fun root => (root, uplinkBw)⟩
  atHosts : ∀ j < hosts, g.place (hostName j) =
    some ⟨3, true, [(torName (j / rackSize), hostBw)]⟩
  others : ∀ name, g.place name ≠ none →
    name ∈ roots ∨ (∃ i < racks, name = torName i) ∨ ∃ j < hosts, name = hostName j
  rootKinds : g.kinds.filter (fun node => node.depth = 1) =
    roots.map fun root => Node.new root 1 false
  torKinds : g.kinds.filter Node.isTor =
    (List.range racks).map fun i => Node.new (torName i) 2 false
  hostKinds : g.kinds.filter Node.isHost =
    (List.range hosts).map fun j => Node.new (hostName j) 3 true

variable {roots : List String} {uplinkBw hostBw : β} {rackSize racks hosts : ℕ} {g g' : Growing β}

theorem RootNames.ne_torName (names : RootNames roots) {root : String} (mem : root ∈ roots)
    (i : ℕ) : root ≠ torName i := by
  rintro rfl
  have notTor := names.notTor _ mem
  have isTor := isTor_torName i
  simp only [Node.isTor, Node.new] at notTor isTor
  rw [isTor] at notTor
  cases notTor

theorem Racked.exists_addHost (racked : Racked roots uplinkBw rackSize hostBw racks hosts g)
    (names : RootNames roots) (inRack : hosts / rackSize < racks) : ∃ g',
      addHost (torName (hosts / rackSize)) hostBw g hosts = .ok g' ∧
        Racked roots uplinkBw rackSize hostBw racks (hosts + 1) g' := by
  have fresh : g.place (hostName hosts) = none := by
    by_contra known
    rcases racked.others _ known with mem | ⟨i, _, same⟩ | ⟨j, lt, same⟩
    · exact names.notHost _ mem hosts rfl
    · exact torName_ne_hostName i hosts same.symm
    · exact Nat.ne_of_gt lt (hostName_inj.mp same)
  rcases racked.grown.exists_addNode fresh 3 true with
    ⟨middle, added, grown, places, kinds⟩
  have isParent : middle.place (torName (hosts / rackSize)) =
      some ⟨2, false, roots.map fun root => (root, uplinkBw)⟩ := by
    rw [places, Function.update_of_ne (torName_ne_hostName _ _), racked.atTors _ inRack]
  have isChild : middle.place (hostName hosts) = some ⟨3, true, []⟩ := by
    rw [places, Function.update_self]
  rcases grown.exists_addLinkByName isParent isChild rfl hostBw with
    ⟨g', linked, grown', places', kinds'⟩
  rw [places, Function.update_idem] at places'
  rw [kinds] at kinds'
  have elsewhere : ∀ name, name ≠ hostName hosts → g'.place name = g.place name := by
    intro name other
    rw [places', Function.update_of_ne other]
  refine ⟨g', ?_, grown', ?_, ?_, ?_, ?_, ?_, ?_, ?_⟩
  · simp only [addHost, bind_eq_ok]
    exact ⟨middle, added, linked⟩
  · intro root mem
    rw [elsewhere root (names.notHost root mem hosts)]
    exact racked.atRoots root mem
  · intro i lt
    rw [elsewhere _ (torName_ne_hostName i hosts)]
    exact racked.atTors i lt
  · intro j lt
    rcases Nat.lt_succ_iff_lt_or_eq.mp lt with old | rfl
    · rw [elsewhere _ fun same => Nat.ne_of_lt old (hostName_inj.mp same)]
      exact racked.atHosts j old
    · rw [places', Function.update_self]
      rfl
  · intro name known
    by_cases same : name = hostName hosts
    · exact Or.inr (Or.inr ⟨hosts, Nat.lt_succ_self hosts, same⟩)
    · rw [elsewhere name same] at known
      rcases racked.others name known with mem | tor | ⟨j, lt, isHost⟩
      · exact Or.inl mem
      · exact Or.inr (Or.inl tor)
      · exact Or.inr (Or.inr ⟨j, Nat.lt_succ_of_lt lt, isHost⟩)
  · rw [kinds', List.filter_append, racked.rootKinds]
    simp [Node.new]
  · rw [kinds', List.filter_append, racked.torKinds]
    simp [Node.new, Node.isTor]
  · rw [kinds', List.filter_append, racked.hostKinds, List.range_succ, List.map_append]
    simp [Node.new]

/-- The hosts of a rack that has its switch already. -/
theorem Racked.exists_addHosts (racked : Racked roots uplinkBw rackSize hostBw racks hosts g)
    (names : RootNames roots) {i count : ℕ} (isRack : i < racks)
    (inRack : ∀ j, hosts ≤ j → j < hosts + count → j / rackSize = i) : ∃ g',
      (List.range' hosts count).foldlM (addHost (torName i) hostBw) g = .ok g' ∧
        Racked roots uplinkBw rackSize hostBw racks (hosts + count) g' := by
  induction count generalizing hosts g with
  | zero => exact ⟨g, rfl, racked⟩
  | succ count ih =>
      have first := inRack hosts (Nat.le_refl _) (by omega)
      rcases racked.exists_addHost names (first ▸ isRack) with ⟨middle, added, racked'⟩
      rw [first] at added
      rcases ih racked' (fun j le lt => inRack j (by omega) (by omega)) with ⟨g', run, racked''⟩
      refine ⟨g', ?_, ?_⟩
      · rw [List.range'_succ, List.foldlM_cons, bind_eq_ok]
        exact ⟨middle, added, run⟩
      · rw [← Nat.add_assoc, Nat.add_right_comm]
        exact racked''

/-- The links from the roots to the switch of a rack. -/
theorem exists_addUplinks {tor : String} {uplinks : List (String × β)} (grown : g.Grown)
    (atRoots : ∀ root ∈ roots, g.place root = some ⟨1, false, []⟩)
    (atTor : g.place tor = some ⟨2, false, uplinks⟩) (apart : ∀ root ∈ roots, root ≠ tor)
    (uplinkBw : β) :
    ∃ g', roots.foldlM (fun cluster root => Growing.addLinkByName cluster root tor uplinkBw) g =
        .ok g' ∧ g'.Grown ∧
      g'.place = Function.update g.place tor
        (some ⟨2, false, uplinks ++ roots.map fun root => (root, uplinkBw)⟩) ∧
      g'.kinds = g.kinds := by
  induction roots generalizing g uplinks with
  | nil => exact ⟨g, rfl, grown, by simp [← atTor], rfl⟩
  | cons root roots ih =>
      rcases grown.exists_addLinkByName (atRoots root List.mem_cons_self) atTor rfl uplinkBw with
        ⟨middle, linked, grown', places, kinds⟩
      have atTor' : middle.place tor = some ⟨2, false, uplinks ++ [(root, uplinkBw)]⟩ := by
        rw [places, Function.update_self]
        rfl
      have atRoots' : ∀ other ∈ roots, middle.place other = some ⟨1, false, []⟩ := by
        intro other mem
        rw [places, Function.update_of_ne (apart other (List.mem_cons_of_mem _ mem))]
        exact atRoots other (List.mem_cons_of_mem _ mem)
      have apart' : ∀ other ∈ roots, other ≠ tor :=
        fun other mem => apart other (List.mem_cons_of_mem _ mem)
      rcases ih grown' atRoots' atTor' apart' with ⟨g', run, grown'', places', kinds'⟩
      refine ⟨g', ?_, grown'', ?_, kinds'.trans kinds⟩
      · rw [List.foldlM_cons, bind_eq_ok]
        exact ⟨middle, linked, run⟩
      · rw [places', places, Function.update_idem]
        simp

/-- A switch with its links to the roots makes a rack without hosts. -/
theorem Racked.exists_addTor (racked : Racked roots uplinkBw rackSize hostBw racks hosts g)
    (names : RootNames roots) : ∃ middle g',
      g.addNode (Node.new (torName racks) 2 false) = .ok middle ∧
        roots.foldlM (fun cluster root =>
          Growing.addLinkByName cluster root (torName racks) uplinkBw) middle = .ok g' ∧
        Racked roots uplinkBw rackSize hostBw (racks + 1) hosts g' := by
  have fresh : g.place (torName racks) = none := by
    by_contra known
    rcases racked.others _ known with mem | ⟨i, lt, same⟩ | ⟨j, _, same⟩
    · exact names.ne_torName mem racks rfl
    · exact Nat.ne_of_gt lt (torName_inj.mp same)
    · exact torName_ne_hostName racks j same
  rcases racked.grown.exists_addNode fresh 2 false with ⟨middle, added, grown, places, kinds⟩
  have atRoots : ∀ root ∈ roots, middle.place root = some ⟨1, false, []⟩ := by
    intro root mem
    rw [places, Function.update_of_ne (names.ne_torName mem racks)]
    exact racked.atRoots root mem
  have atTor : middle.place (torName racks) = some ⟨2, false, []⟩ := by
    rw [places, Function.update_self]
  rcases exists_addUplinks grown atRoots atTor (fun root mem => names.ne_torName mem racks)
    uplinkBw with ⟨g', linked, grown', places', kinds'⟩
  rw [places, Function.update_idem] at places'
  rw [kinds] at kinds'
  have elsewhere : ∀ name, name ≠ torName racks → g'.place name = g.place name := by
    intro name other
    rw [places', Function.update_of_ne other]
  refine ⟨middle, g', added, linked, grown', ?_, ?_, ?_, ?_, ?_, ?_, ?_⟩
  · intro root mem
    rw [elsewhere root (names.ne_torName mem racks)]
    exact racked.atRoots root mem
  · intro i lt
    rcases Nat.lt_succ_iff_lt_or_eq.mp lt with old | rfl
    · rw [elsewhere _ fun same => Nat.ne_of_lt old (torName_inj.mp same)]
      exact racked.atTors i old
    · rw [places', Function.update_self]
      rfl
  · intro j lt
    rw [elsewhere _ (torName_ne_hostName racks j).symm]
    exact racked.atHosts j lt
  · intro name known
    by_cases same : name = torName racks
    · exact Or.inr (Or.inl ⟨racks, Nat.lt_succ_self racks, same⟩)
    · rw [elsewhere name same] at known
      rcases racked.others name known with mem | ⟨i, lt, isTor⟩ | host
      · exact Or.inl mem
      · exact Or.inr (Or.inl ⟨i, Nat.lt_succ_of_lt lt, isTor⟩)
      · exact Or.inr (Or.inr host)
  · rw [kinds', List.filter_append, racked.rootKinds]
    simp [Node.new]
  · rw [kinds', List.filter_append, racked.torKinds, List.range_succ, List.map_append]
    simp [isTor_torName]
  · rw [kinds', List.filter_append, racked.hostKinds]
    simp [Node.new]

theorem Racked.exists_addRack
    (racked : Racked roots uplinkBw rackSize hostBw racks (racks * rackSize) g)
    (names : RootNames roots) : ∃ g',
      addRack roots uplinkBw rackSize hostBw (g, racks * rackSize) racks =
        .ok (g', (racks + 1) * rackSize) ∧
      Racked roots uplinkBw rackSize hostBw (racks + 1) ((racks + 1) * rackSize) g' := by
  rcases racked.exists_addTor names with ⟨middle, g', added, linked, racked'⟩
  have inRack : ∀ j, racks * rackSize ≤ j → j < racks * rackSize + rackSize →
      j / rackSize = racks := by
    intro j le lt
    apply Nat.div_eq_of_lt_le le
    rw [Nat.add_mul, Nat.one_mul]
    exact lt
  rcases racked'.exists_addHosts names (Nat.lt_succ_self racks) inRack with ⟨g'', hosted, racked''⟩
  rw [Nat.add_mul, Nat.one_mul]
  refine ⟨g'', ?_, racked''⟩
  simp only [addRack, bind_eq_ok, pure_eq_ok]
  exact ⟨middle, added, g', linked, g'', hosted, rfl⟩

/-- All racks, one after the other. -/
theorem Racked.exists_addRacks (racked : Racked roots uplinkBw rackSize hostBw 0 0 g)
    (names : RootNames roots) (nracks : ℕ) : ∃ g',
      (List.range nracks).foldlM (addRack roots uplinkBw rackSize hostBw) (g, 0) =
        .ok (g', nracks * rackSize) ∧
      Racked roots uplinkBw rackSize hostBw nracks (nracks * rackSize) g' := by
  induction nracks with
  | zero =>
      rw [Nat.zero_mul]
      exact ⟨g, rfl, racked⟩
  | succ nracks ih =>
      rcases ih with ⟨middle, run, racked'⟩
      rcases racked'.exists_addRack names with ⟨g', added, racked''⟩
      refine ⟨g', ?_, racked''⟩
      rw [List.range_succ, List.foldlM_append, bind_eq_ok]
      refine ⟨_, run, ?_⟩
      rw [List.foldlM_cons, bind_eq_ok]
      exact ⟨_, added, rfl⟩

theorem racked_empty : Racked [] uplinkBw rackSize hostBw 0 0 {} where
  grown := Growing.grown_empty
  atRoots root mem := by cases mem
  atTors i lt := absurd lt (Nat.not_lt_zero i)
  atHosts j lt := absurd lt (Nat.not_lt_zero j)
  others name known := absurd rfl known
  rootKinds := rfl
  torKinds := rfl
  hostKinds := rfl

theorem Racked.exists_addRoot (racked : Racked roots uplinkBw rackSize hostBw 0 0 g)
    {root : String} (new : root ∉ roots) (notTor : (Node.new root 1 false).isTor = false) :
    ∃ g', g.addNode (Node.new root 1 false) = .ok g' ∧
      Racked (roots ++ [root]) uplinkBw rackSize hostBw 0 0 g' := by
  have fresh : g.place root = none := by
    by_contra known
    rcases racked.others _ known with mem | ⟨i, lt, _⟩ | ⟨j, lt, _⟩
    · exact new mem
    · exact Nat.not_lt_zero i lt
    · exact Nat.not_lt_zero j lt
  rcases racked.grown.exists_addNode fresh 1 false with ⟨g', added, grown, places, kinds⟩
  refine ⟨g', added, grown, ?_, fun i lt => absurd lt (Nat.not_lt_zero i),
    fun j lt => absurd lt (Nat.not_lt_zero j), ?_, ?_, ?_, ?_⟩
  · intro other mem
    rcases List.mem_append.mp mem with old | last
    · have apart : other ≠ root := by
        rintro rfl
        exact new old
      rw [places, Function.update_of_ne apart]
      exact racked.atRoots other old
    · rw [List.mem_singleton.mp last, places, Function.update_self]
  · intro name known
    left
    by_cases same : name = root
    · simp [same]
    · rw [places, Function.update_of_ne same] at known
      rcases racked.others _ known with mem | ⟨i, lt, _⟩ | ⟨j, lt, _⟩
      · exact List.mem_append_left _ mem
      · exact absurd lt (Nat.not_lt_zero i)
      · exact absurd lt (Nat.not_lt_zero j)
  · rw [kinds, List.filter_append, racked.rootKinds]
    simp [Node.new]
  · rw [kinds, List.filter_append, racked.torKinds]
    simp [notTor]
  · rw [kinds, List.filter_append, racked.hostKinds]
    simp [Node.new]

theorem rootNames_cloud : RootNames ["cloud"] where
  nodup := List.nodup_singleton _
  notTor := by decide
  notHost root mem j := by
    rw [List.mem_singleton.mp mem]
    exact ne_of_head_ne (by simp [hostName])

theorem rootNames_spines (nspines : ℕ) : RootNames ((List.range nspines).map spineName) where
  nodup := List.nodup_range.map fun _ _ same => spineName_inj.mp same
  notTor := by
    intro root mem
    rcases List.mem_map.mp mem with ⟨i, _, rfl⟩
    simp [Node.isTor, Node.new, spineName, List.isPrefixOf]
  notHost := by
    intro root mem j
    rcases List.mem_map.mp mem with ⟨i, _, rfl⟩
    exact ne_of_head_ne (by simp [spineName, hostName])

/-- Building below the cloud succeeds. -/
theorem buildArbitraryCluster_racked (nracks rackSize : ℕ) (hostBw rackBw : β) : ∃ g,
    buildArbitraryCluster nracks rackSize hostBw rackBw = .ok g ∧
      Racked ["cloud"] rackBw rackSize hostBw nracks (nracks * rackSize) g := by
  rcases racked_empty.exists_addRoot List.not_mem_nil
    (rootNames_cloud.notTor "cloud" (List.mem_singleton_self _)) with ⟨middle, added, racked⟩
  rcases racked.exists_addRacks rootNames_cloud nracks with ⟨g, run, racked'⟩
  refine ⟨g, ?_, racked'⟩
  simp only [buildArbitraryCluster, bind_eq_ok, pure_eq_ok]
  exact ⟨middle, added, _, run, rfl⟩

theorem exists_spines (nspines : ℕ) : ∃ g,
    (List.range nspines).foldlM
      (fun cluster i => Growing.addNode cluster (Node.new (spineName i) 1 false)) {} = .ok g ∧
    Racked ((List.range nspines).map spineName) uplinkBw rackSize hostBw 0 0 g := by
  induction nspines with
  | zero => exact ⟨{}, rfl, racked_empty⟩
  | succ nspines ih =>
      rcases ih with ⟨middle, run, racked⟩
      have new : spineName nspines ∉ (List.range nspines).map spineName := by simp
      have notTor := (rootNames_spines (nspines + 1)).notTor (spineName nspines) (by simp)
      rcases racked.exists_addRoot new notTor with ⟨g, added, racked'⟩
      rw [List.range_succ, List.map_append, List.foldlM_append]
      refine ⟨g, ?_, racked'⟩
      rw [bind_eq_ok]
      refine ⟨middle, run, ?_⟩
      rw [List.foldlM_cons, bind_eq_ok]
      exact ⟨g, added, rfl⟩

/-- Building below spines succeeds. -/
theorem buildTwolayerMultipathCluster_racked (nspines nracks rackSize : ℕ)
    (hostBw rackUplinkPortBw : β) : ∃ g,
    buildTwolayerMultipathCluster nspines nracks rackSize hostBw rackUplinkPortBw = .ok g ∧
      Racked ((List.range nspines).map spineName) rackUplinkPortBw rackSize hostBw nracks
        (nracks * rackSize) g := by
  rcases exists_spines nspines with ⟨middle, spines, racked⟩
  rcases racked.exists_addRacks (rootNames_spines nspines) nracks with ⟨g, run, racked'⟩
  refine ⟨g, ?_, racked'⟩
  simp only [buildTwolayerMultipathCluster, bind_eq_ok, pure_eq_ok]
  exact ⟨middle, spines, _, run, rfl⟩

/-- A fat tree is built when its switches have an even number of ports. -/
theorem buildFatreeFake_racked (arith : Arithmetic β) {nports : ℕ} (even : nports % 2 = 0) (bw : β)
    (oversubRatio : ℚ) : ∃ g, buildFatreeFake arith nports bw oversubRatio = .ok g ∧
      Racked ["cloud"] (arith.dividedBy (arith.times bw (nports / 2)) oversubRatio) (nports / 2) bw
        (nports * (nports / 2)) (nports * (nports / 2) * (nports / 2)) g := by
  rcases buildArbitraryCluster_racked (nports * (nports / 2)) (nports / 2) bw
    (arith.dividedBy (arith.times bw (nports / 2)) oversubRatio) with ⟨g, run, racked⟩
  refine ⟨g, ?_, racked⟩
  simp only [buildFatreeFake, bind_eq_ok, assert_eq_ok]
  exact ⟨⟨⟩, even, run⟩

theorem Racked.hostNames (racked : Racked roots uplinkBw rackSize hostBw racks hosts g) :
    (g.nodes.filter Node.isHost).map Node.name = (List.range hosts).map hostName := by
  have found := congrArg (List.map Node.name) racked.hostKinds
  rw [Growing.kinds, List.filter_map, List.map_map, List.map_map] at found
  exact found

/-- Hosts have nothing below them. -/
theorem Racked.attachedOnly {β : Type} {roots : List String} {uplinkBw hostBw : β}
    {rackSize racks hosts i : ℕ} {g : Growing β}
    (racked : Racked roots uplinkBw rackSize hostBw racks hosts g) (names : RootNames roots)
    (isHost : i < hosts) (inRack : i / rackSize < racks) :
    g.AttachedOnly (hostName i) (torName (i / rackSize)) hostBw := by
  have wired := racked.grown.wired
  rcases wired.exists_of_place (racked.atHosts i isHost) with
    ⟨child, node, atChild, isNode, hasName, _, _, uplinks⟩
  rcases wired.parent_eq_singleton isNode uplinks with ⟨up, top, isParent, isEdge, topName⟩
  rcases wired.exists_of_place (racked.atTors _ inRack) with ⟨tor, torNode, atTor, isTor, torHas, _⟩
  have isTop : top = tor := by
    have inside := wired.joins_target ⟨hostBw, isEdge⟩
    have topNode := List.getElem?_eq_getElem inside
    have named := (wired.named (torName (i / rackSize)) top).mpr
      ⟨_, topNode, by simpa [Growing.nameOf, topNode] using topName⟩
    exact Option.some.inj (named.symm.trans atTor)
  subst isTop
  have childless : node.children = [] := by
    by_contra nonempty
    rcases List.exists_mem_of_ne_nil _ nonempty with ⟨link, mem⟩
    rcases wired.below child node isNode link mem with ⟨y, low, joins, isLow, mem'⟩
    rcases joins with ⟨found, isLink⟩
    have leads : g.leadsTo (Cluster.getReverseLink link) = some (hostName i, found) := by
      rw [Growing.leadsTo, wired.paired link child y found isLink]
      simp [Growing.nameOf, isNode, hasName]
    have isPlace := wired.place_eq isLow rfl
    have isUplink : (hostName i, found) ∈ low.parent.filterMap g.leadsTo :=
      List.mem_filterMap.mpr ⟨_, mem', leads⟩
    rcases racked.others low.name (by simp [isPlace]) with root | ⟨k, lt, isName⟩ | ⟨j, lt, isName⟩
    · rw [racked.atRoots _ root, Option.some.injEq, Place.mk.injEq] at isPlace
      rw [← isPlace.2.2] at isUplink
      cases isUplink
    · rw [isName, racked.atTors k lt, Option.some.injEq, Place.mk.injEq] at isPlace
      rw [← isPlace.2.2] at isUplink
      rcases List.mem_map.mp isUplink with ⟨root, isRoot, same⟩
      exact names.notHost root isRoot i (Prod.mk.inj same).1
    · rw [isName, racked.atHosts j lt, Option.some.injEq, Place.mk.injEq] at isPlace
      rw [← isPlace.2.2] at isUplink
      exact torName_ne_hostName _ i (Prod.mk.inj (List.mem_singleton.mp isUplink)).1.symm
  have starts : ∀ link y, g.Joins link child y → link = up := by
    intro link y joins
    have mem := (wired.adjacent child node isNode link).mpr ⟨y, joins⟩
    rw [isParent, childless] at mem
    simpa using mem
  refine ⟨child, top, up, atChild, atTor, isEdge, wired.paired up child top hostBw isEdge, ?_⟩
  rintro link x y joins (rfl | rfl)
  · exact Or.inl (starts link y joins)
  · right
    rcases joins with ⟨found, isLink⟩
    rw [← starts _ x ⟨found, wired.paired link x y found isLink⟩, Growing.reverse_reverse]

end Phantora.Netsim
