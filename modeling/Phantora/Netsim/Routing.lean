import Phantora.Netsim.Architecture

/-!
# Single-path routes

A route climbs from both ends until the two meet. In a layered cluster this is a
walk that goes up and then down; in a cluster of racks the two always meet, in
the switch of the rack or in the first root.
-/

namespace Phantora.Netsim

open Outcome Walks

namespace Growing

/-- A route is a walk between two named nodes that only goes up and then only goes down. -/
structure Routes (g : Growing ℕ) (src dst : String) (route : Route) : Prop where
  source : g.nodeMap src = some route.source
  target : g.nodeMap dst = some route.target
  upDown : UpDown g.Joins g.depthOf route.source route.path route.target

variable {g : Growing ℕ}

theorem turn_joins (wired : g.Wired) {link : LinkIx} {x y : NodeIx} (joins : g.Joins link x y) :
    g.Joins (Cluster.getReverseLink link) y x := by
  rcases joins with ⟨bandwidth, isEdge⟩
  exact ⟨bandwidth, wired.paired link x y bandwidth isEdge⟩

/-- The way from a node to one of its parents goes up. -/
theorem climbs_of_parent (layered : g.Layered) {x : NodeIx} {node : Node} {link : LinkIx}
    {edge : Link} (known : g.nodes[x]? = some node) (mem : link ∈ node.parent)
    (isLink : g.toCluster.links[link]? = some edge) :
    Climbs g.Joins g.depthOf link x edge.target := by
  rcases layered x node known link mem with ⟨y, joins, deeper⟩
  have isTarget : edge.target = y := by
    rcases joins with ⟨bandwidth, isEdge⟩
    rw [toCluster, List.getElem?_map, isEdge, Option.map_some, Option.some.injEq] at isLink
    rw [← isLink]
  rw [isTarget]
  exact ⟨joins, deeper⟩

theorem climbs_of_uplink (layered : g.Layered) {x y : NodeIx} {link : LinkIx}
    (run : g.toCluster.uplink x = .ok (link, y)) : Climbs g.Joins g.depthOf link x y := by
  simp only [Cluster.uplink, bind_eq_ok, unwrap_eq_ok, pure_eq_ok, Prod.mk.injEq] at run
  rcases run with ⟨node, known, link', first, edge, isLink, rfl, rfl⟩
  exact climbs_of_parent layered known (List.mem_of_getElem? first) isLink

/-- Climbing extends the first path upwards and the second one downwards. -/
theorem walks_of_climb (wired : g.Wired) (layered : g.Layered) {depth : ℕ} {x y top top' : NodeIx}
    {path1 path2 path1' path2' : List LinkIx}
    (run : g.toCluster.climb depth x y path1 path2 = .ok (top, top', path1', path2')) :
    ∃ up down, path1' = path1 ++ up ∧ path2' = down ++ path2 ∧
      Walk (Climbs g.Joins g.depthOf) x up top ∧ Walk (Falls g.Joins g.depthOf) top' down y := by
  induction depth, x, y, path1, path2 using Cluster.climb.induct with
  | case1 x y path1 path2 =>
      cases run
      exact ⟨[], [], by simp, by simp, .nil _, .nil _⟩
  | case2 x y path1 path2 =>
      cases run
      exact ⟨[], [], by simp, by simp, .nil _, .nil _⟩
  | case3 depth y path1 path2 =>
      rw [Cluster.climb, if_pos rfl] at run
      cases run
      exact ⟨[], [], by simp, by simp, .nil _, .nil _⟩
  | case4 depth x y path1 path2 apart ih =>
      rw [Cluster.climb, if_neg apart] at run
      simp only [bind_eq_ok, Prod.exists] at run
      rcases run with ⟨parx, x', upX, pary, y', upY, run⟩
      rcases ih parx x' pary y' run with ⟨up, down, rfl, rfl, climb, fall⟩
      have first := climbs_of_uplink layered upX
      have last := falls_of_climbs (fun _ _ _ => turn_joins wired) (climbs_of_uplink layered upY)
      exact ⟨parx :: up, down ++ [Cluster.getReverseLink pary], by simp, by simp, .cons first climb,
        fall.concat last⟩

/-- A route that is found goes up and then down. -/
theorem routes_of_resolveRoute (wired : g.Wired) (layered : g.Layered) {src dst : String}
    {vsrc vdst : Option String} {route : Route}
    (run : g.toCluster.resolveRoute src dst vsrc vdst = .ok route) : g.Routes src dst route := by
  simp only [Cluster.resolveRoute, bind_eq_ok, unwrap_eq_ok, assert_eq_ok] at run
  rcases run with ⟨srcId, isSrc, dstId, isDst, srcNode, _, dstNode, _, ⟨⟩, _, run⟩
  split at run
  · rename_i same
    simp only [bind_eq_ok, pure_eq_ok, Prod.exists] at run
    rcases run with ⟨parx, y, up, rfl⟩
    have first := climbs_of_uplink layered up
    have last := falls_of_climbs (fun _ _ _ => turn_joins wired) first
    refine ⟨isSrc, isDst, ?_⟩
    have walks := upDown_of_walks functional_joins (.single first) (.single last)
    dsimp only
    rw [← same.1]
    exact walks
  · simp only [bind_eq_ok, assert_eq_ok, pure_eq_ok, Prod.exists] at run
    rcases run with ⟨x, y, path1, path2, climb, ⟨⟩, rfl, rfl⟩
    rcases walks_of_climb wired layered climb with ⟨up, down, rfl, rfl, climb, fall⟩
    refine ⟨isSrc, isDst, ?_⟩
    have walks := upDown_of_walks functional_joins climb fall
    simpa using walks

/-- Where climbing meets, the route is found. -/
theorem resolveRoute_of_climb (wired : g.Wired) {src dst : String} {x y top : NodeIx}
    {vsrc vdst : Option String} {up down : List LinkIx} (isSrc : g.nodeMap src = some x)
    (isDst : g.nodeMap dst = some y) (level : g.depthOf x = g.depthOf y)
    (normal : ¬(x = y ∧ vsrc.isSome ∧ vdst.isSome ∧ vsrc ≠ vdst))
    (climb : g.toCluster.climb (g.depthOf x) x y [] [] = .ok (top, top, up, down)) :
    g.toCluster.resolveRoute src dst vsrc vdst = .ok ⟨x, y, up ++ down⟩ := by
  rcases (wired.named src x).mp isSrc with ⟨srcNode, known, _⟩
  rcases (wired.named dst y).mp isDst with ⟨dstNode, known', _⟩
  have depth : g.depthOf x = srcNode.depth := by simp [depthOf, known]
  have depth' : g.depthOf y = dstNode.depth := by simp [depthOf, known']
  rw [depth] at climb level
  rw [depth'] at level
  simp only [Cluster.resolveRoute, bind_eq_ok, unwrap_eq_ok, assert_eq_ok]
  refine ⟨x, isSrc, y, isDst, srcNode, known, dstNode, known', ⟨⟩, level, ?_⟩
  rw [if_neg normal]
  simp only [bind_eq_ok, assert_eq_ok, pure_eq_ok, Prod.exists]
  exact ⟨top, top, up, down, climb, ⟨⟩, rfl, rfl⟩

/-- Between two virtual hosts on one node, the route goes up and back. -/
theorem resolveRoute_of_uplink (wired : g.Wired) {src dst : String} {x tor : NodeIx}
    {up : LinkIx} {vsrc vdst : Option String} (isSrc : g.nodeMap src = some x)
    (isDst : g.nodeMap dst = some x) (uplink : g.toCluster.uplink x = .ok (up, tor))
    (virtual : vsrc.isSome ∧ vdst.isSome ∧ vsrc ≠ vdst) :
    g.toCluster.resolveRoute src dst vsrc vdst =
      .ok ⟨x, x, [up, Cluster.getReverseLink up]⟩ := by
  rcases (wired.named src x).mp isSrc with ⟨node, known, _⟩
  simp only [Cluster.resolveRoute, bind_eq_ok, unwrap_eq_ok, assert_eq_ok]
  refine ⟨x, isSrc, x, isDst, node, known, node, known, ⟨⟩, rfl, ?_⟩
  rw [if_pos ⟨rfl, virtual⟩]
  simp only [bind_eq_ok, pure_eq_ok, Prod.exists]
  exact ⟨up, tor, uplink, rfl⟩

theorem climb_self (cluster : Cluster) (depth : ℕ) (x : NodeIx) (path1 path2 : List LinkIx) :
    cluster.climb depth x x path1 path2 = .ok (x, x, path1, path2) := by
  match depth with
  | 0 => rfl
  | 1 => rfl
  | depth + 2 => rw [Cluster.climb, if_pos rfl]

theorem Wired.ix_inj (wired : g.Wired) {name name' : String} {ix : NodeIx}
    (known : g.nodeMap name = some ix) (known' : g.nodeMap name' = some ix) : name = name' := by
  rcases (wired.named name ix).mp known with ⟨node, isNode, hasName⟩
  rcases (wired.named name' ix).mp known' with ⟨node', isNode', hasName'⟩
  rw [isNode, Option.some.injEq] at isNode'
  rw [← hasName, ← hasName', isNode']

/-- The first uplink of a place leads to the node of the name that it gives. -/
theorem Wired.uplink_of_place (wired : g.Wired) {name parent : String} {ix : NodeIx}
    {found : Place ℕ} {bandwidth : ℕ} {rest : List (String × ℕ)}
    (known : g.nodeMap name = some ix) (isPlace : g.place name = some found)
    (uplinks : found.uplinks = (parent, bandwidth) :: rest) : ∃ up y,
      g.toCluster.uplink ix = .ok (up, y) ∧ g.nodeMap parent = some y := by
  rcases wired.exists_of_place isPlace with ⟨ix', node, known', isNode, _, _, _, leads⟩
  rw [known, Option.some.injEq] at known'
  subst known'
  rw [uplinks] at leads
  cases isParent : node.parent with
  | nil => simp [isParent] at leads
  | cons up others =>
      rcases (wired.adjacent ix node isNode up).mp (Or.inl (isParent ▸ List.mem_cons_self)) with
        ⟨y, joins⟩
      have inside := wired.joins_target joins
      rcases joins with ⟨found', isEdge⟩
      have isLed : g.leadsTo up = some (g.nameOf y, found') := by
        rw [leadsTo, isEdge]
        rfl
      rw [isParent, List.filterMap_cons_some isLed, List.cons.injEq, Prod.mk.injEq] at leads
      refine ⟨up, y, ?_, ?_⟩
      · simp only [Cluster.uplink, bind_eq_ok, unwrap_eq_ok, pure_eq_ok]
        exact ⟨node, isNode, up, by rw [isParent]; rfl, ⟨ix, y, found'⟩,
          by simp [toCluster, isEdge], rfl⟩
      · have topNode := List.getElem?_eq_getElem inside
        refine (wired.named parent y).mpr ⟨_, topNode, ?_⟩
        simpa [nameOf, topNode] using leads.1.1

end Growing

/-- The number of links between two hosts of racks of some size. -/
def hops (rackSize i j : ℕ) : ℕ :=
  if i = j then 0 else if i / rackSize = j / rackSize then 2 else 4

section Racks

variable {g : Growing ℕ} {root : String} {roots : List String} {uplinkBw hostBw : ℕ}
  {rackSize racks hosts i j : ℕ}

theorem Racked.exists_uplink (racked : Racked roots uplinkBw rackSize hostBw racks hosts g)
    (isHost : i < hosts) {x : NodeIx} (known : g.nodeMap (hostName i) = some x) : ∃ up tor,
      g.toCluster.uplink x = .ok (up, tor) ∧ g.nodeMap (torName (i / rackSize)) = some tor :=
  racked.grown.wired.uplink_of_place known (racked.atHosts i isHost) rfl

theorem Racked.exists_rackUplink
    (racked : Racked (root :: roots) uplinkBw rackSize hostBw racks hosts g) (isRack : i < racks)
    {tor : NodeIx} (known : g.nodeMap (torName i) = some tor) : ∃ up top,
      g.toCluster.uplink tor = .ok (up, top) ∧ g.nodeMap root = some top :=
  racked.grown.wired.uplink_of_place known (racked.atTors i isRack) rfl

/-- Climbing from two switches of racks meets in one of them or in the root. -/
theorem Racked.exists_climb_racks
    (racked : Racked (root :: roots) uplinkBw rackSize hostBw racks hosts g) (isRack : i < racks)
    (isRack' : j < racks) {x y : NodeIx} (atX : g.nodeMap (torName i) = some x)
    (atY : g.nodeMap (torName j) = some y) (path1 path2 : List LinkIx) : ∃ top up down,
      g.toCluster.climb 2 x y path1 path2 = .ok (top, top, path1 ++ up, down ++ path2) ∧
        (up ++ down).length = if i = j then 0 else 2 := by
  by_cases same : i = j
  · subst same
    rw [atX, Option.some.injEq] at atY
    rw [if_pos rfl, Cluster.climb, if_pos atY, atY]
    exact ⟨y, [], [], by simp, rfl⟩
  · have apart : x ≠ y := by
      rintro rfl
      exact same (torName_inj.mp (racked.grown.wired.ix_inj atX atY))
    rcases racked.exists_rackUplink isRack atX with ⟨upX, top, climbX, atTop⟩
    rcases racked.exists_rackUplink isRack' atY with ⟨upY, top', climbY, atTop'⟩
    rw [atTop, Option.some.injEq] at atTop'
    subst atTop'
    rw [if_neg same, Cluster.climb, if_neg apart]
    simp only [bind_eq_ok, Prod.exists]
    exact ⟨top, [upX], [Cluster.getReverseLink upY], ⟨upX, top, climbX, upY, top, climbY, rfl⟩, rfl⟩

/-- Climbing from two hosts meets in one of them, in the switch of their rack, or in the root. -/
theorem Racked.exists_climb
    (racked : Racked (root :: roots) uplinkBw rackSize hostBw racks hosts g)
    (isHost : i < hosts) (inRack : i / rackSize < racks) (isHost' : j < hosts)
    (inRack' : j / rackSize < racks) {x y : NodeIx} (atX : g.nodeMap (hostName i) = some x)
    (atY : g.nodeMap (hostName j) = some y) : ∃ top path1 path2,
      g.toCluster.climb 3 x y [] [] = .ok (top, top, path1, path2) ∧
        (path1 ++ path2).length = hops rackSize i j := by
  by_cases same : i = j
  · subst same
    rw [atX, Option.some.injEq] at atY
    rw [hops, if_pos rfl, Cluster.climb, if_pos atY, atY]
    exact ⟨y, [], [], rfl, rfl⟩
  · have apart : x ≠ y := by
      rintro rfl
      exact same (hostName_inj.mp (racked.grown.wired.ix_inj atX atY))
    rcases racked.exists_uplink isHost atX with ⟨upX, torX, climbX, atTorX⟩
    rcases racked.exists_uplink isHost' atY with ⟨upY, torY, climbY, atTorY⟩
    rcases racked.exists_climb_racks inRack inRack' atTorX atTorY ([] ++ [upX])
      [Cluster.getReverseLink upY] with ⟨top, up, down, climb, length⟩
    rw [hops, if_neg same, Cluster.climb, if_neg apart]
    simp only [bind_eq_ok, Prod.exists]
    refine ⟨top, _, _, ⟨upX, torX, climbX, upY, torY, climbY, climb⟩, ?_⟩
    rw [List.length_append] at length
    simp only [List.length_append, List.length_cons, List.length_nil]
    split at length
    · rename_i sameRack
      rw [if_pos sameRack]
      omega
    · rename_i apartRacks
      rw [if_neg apartRacks]
      omega

theorem Racked.depth_host (racked : Racked roots uplinkBw rackSize hostBw racks hosts g)
    (isHost : i < hosts) : ∃ x, g.nodeMap (hostName i) = some x ∧ g.depthOf x = 3 := by
  rcases racked.grown.wired.exists_of_place (racked.atHosts i isHost) with
    ⟨x, node, known, isNode, _, depth, _, _⟩
  exact ⟨x, known, by simpa [Growing.depthOf, isNode] using depth⟩

/-- Between two hosts there is a route, of the expected length. -/
theorem Racked.exists_route
    (racked : Racked (root :: roots) uplinkBw rackSize hostBw racks hosts g)
    (isHost : i < hosts) (inRack : i / rackSize < racks) (isHost' : j < hosts)
    (inRack' : j / rackSize < racks) {vsrc vdst : Option String}
    (normal : ¬(i = j ∧ vsrc.isSome ∧ vdst.isSome ∧ vsrc ≠ vdst)) : ∃ route,
      g.toCluster.resolveRoute (hostName i) (hostName j) vsrc vdst = .ok route ∧
        route.path.length = hops rackSize i j := by
  have wired := racked.grown.wired
  rcases racked.depth_host isHost with ⟨x, atX, depth⟩
  rcases racked.depth_host isHost' with ⟨y, atY, depth'⟩
  rcases racked.exists_climb isHost inRack isHost' inRack' atX atY with
    ⟨top, path1, path2, climb, length⟩
  have normal' : ¬(x = y ∧ vsrc.isSome ∧ vdst.isSome ∧ vsrc ≠ vdst) := by
    rintro ⟨rfl, given⟩
    exact normal ⟨hostName_inj.mp (wired.ix_inj atX atY), given⟩
  rw [← depth] at climb
  exact ⟨_, Growing.resolveRoute_of_climb wired atX atY (depth.trans depth'.symm) normal' climb,
    length⟩

/-- The only link that starts at a host is its uplink. -/
theorem Racked.eq_uplink (racked : Racked roots uplinkBw rackSize hostBw racks hosts g)
    (names : RootNames roots) (isHost : i < hosts) (inRack : i / rackSize < racks)
    {x tor y : NodeIx}
    {up link : LinkIx} (atX : g.nodeMap (hostName i) = some x)
    (uplink : g.toCluster.uplink x = .ok (up, tor)) (joins : g.Joins link x y) : link = up := by
  rcases racked.attachedOnly names isHost inRack with
    ⟨child, top, only, atChild, _, isEdge, isReverse, alone⟩
  rw [atX, Option.some.injEq] at atChild
  subst atChild
  have joinsTop : g.Joins only x top := ⟨_, isEdge⟩
  have starts : ∀ other z, g.Joins other x z → other = only := by
    intro other z joins
    rcases alone other x z joins (Or.inl rfl) with same | rfl
    · exact same
    · -- else the host would be its own switch
      have climbs := Growing.climbs_of_uplink racked.grown.layered uplink
      rcases alone up x tor climbs.1 (Or.inl rfl) with rfl | rfl
      · have same := Growing.functional_joins _ _ _ _ _ joins ⟨_, isReverse⟩
        have same' := Growing.functional_joins _ _ _ _ _ climbs.1 joinsTop
        have lower := climbs.2
        rw [same'.2, ← same.1] at lower
        omega
      · have same := Growing.functional_joins _ _ _ _ _ climbs.1 ⟨_, isReverse⟩
        have lower := climbs.2
        rw [same.2] at lower
        omega
  rw [starts link y joins,
    starts up tor (Growing.climbs_of_uplink racked.grown.layered uplink).1]

end Racks

/-- The clusters that are built; where there are spines, there is at least one. -/
inductive Built : ℕ → ℕ → Growing ℕ → Prop
  | arbitrary {nracks rackSize hostBw rackBw : ℕ} {g : Growing ℕ}
      (run : buildArbitraryCluster nracks rackSize hostBw rackBw = .ok g) : Built nracks rackSize g
  | fatTree {nports bw : ℕ} {oversubRatio : ℚ} {g : Growing ℕ}
      (run : buildFatreeFake .words nports bw oversubRatio = .ok g) :
      Built (nports * (nports / 2)) (nports / 2) g
  | twoLayer {nspines nracks rackSize hostBw rackUplinkPortBw : ℕ} {g : Growing ℕ}
      (spine : 0 < nspines)
      (run : buildTwolayerMultipathCluster nspines nracks rackSize hostBw
        rackUplinkPortBw = .ok g) :
      Built nracks rackSize g

theorem Built.racked {racks rackSize : ℕ} {g : Growing ℕ} (built : Built racks rackSize g) :
    ∃ root roots uplinkBw hostBw, RootNames (root :: roots) ∧
      Racked (root :: roots) uplinkBw rackSize hostBw racks (racks * rackSize) g := by
  cases built with
  | @arbitrary _ _ hostBw rackBw _ run =>
      rcases buildArbitraryCluster_racked racks rackSize hostBw rackBw with ⟨g', run', racked⟩
      rw [run, Except.ok.injEq] at run'
      subst run'
      exact ⟨"cloud", [], rackBw, hostBw, rootNames_cloud, racked⟩
  | @fatTree nports bw oversubRatio _ run =>
      have even : nports % 2 = 0 := by
        simp only [buildFatreeFake, bind_eq_ok, assert_eq_ok] at run
        rcases run with ⟨⟨⟩, even, _⟩
        exact even
      rcases buildFatreeFake_racked .words even bw oversubRatio with ⟨g', run', racked⟩
      rw [run, Except.ok.injEq] at run'
      subst run'
      exact ⟨"cloud", [], _, bw, rootNames_cloud, racked⟩
  | @twoLayer nspines _ _ hostBw rackUplinkPortBw _ spine run =>
      rcases buildTwolayerMultipathCluster_racked nspines racks rackSize hostBw
        rackUplinkPortBw with
        ⟨g', run', racked⟩
      rw [run, Except.ok.injEq] at run'
      subst run'
      have names := rootNames_spines nspines
      cases nspines with
      | zero => cases spine
      | succ nspines =>
          rw [List.range_succ_eq_map, List.map_cons] at racked names
          exact ⟨spineName 0, _, _, hostBw, names, racked⟩

/-- Every two hosts of a cluster of racks have a route, as long as their racks require. -/
structure RackRoutes (racks rackSize : ℕ) (g : Growing ℕ) : Prop where
  hosts : (g.nodes.filter Node.isHost).map Node.name =
    (List.range (racks * rackSize)).map hostName
  attached : ∀ i < racks * rackSize, ∃ bandwidth,
    g.AttachedOnly (hostName i) (torName (i / rackSize)) bandwidth
  routes : ∀ i < racks * rackSize, ∀ j < racks * rackSize, ∀ vsrc vdst, ∃ route,
    g.toCluster.resolveRoute (hostName i) (hostName j) vsrc vdst = .ok route ∧
      g.Routes (hostName i) (hostName j) route ∧
        if i = j ∧ vsrc.isSome ∧ vdst.isSome ∧ vsrc ≠ vdst then
          ∃ up, (∀ link, (∃ y, g.Joins link route.source y) ↔ link = up) ∧
            route.path = [up, Cluster.getReverseLink up]
        else route.path.length = hops rackSize i j

theorem Built.rackRoutes {racks rackSize : ℕ} {g : Growing ℕ} (built : Built racks rackSize g) :
    RackRoutes racks rackSize g := by
  rcases built.racked with ⟨root, roots, uplinkBw, hostBw, names, racked⟩
  have inRack : ∀ i < racks * rackSize, i / rackSize < racks :=
    fun i lt => Nat.div_lt_of_lt_mul (Nat.mul_comm _ _ ▸ lt)
  have wired := racked.grown.wired
  have layered := racked.grown.layered
  refine ⟨racked.hostNames, ?_, ?_⟩
  · exact fun i lt => ⟨hostBw, racked.attachedOnly names lt (inRack i lt)⟩
  · intro i isHost j isHost' vsrc vdst
    by_cases virtual : i = j ∧ vsrc.isSome ∧ vdst.isSome ∧ vsrc ≠ vdst
    · rcases virtual with ⟨rfl, virtual⟩
      rcases racked.depth_host isHost with ⟨x, atX, _⟩
      rcases racked.exists_uplink isHost atX with ⟨up, tor, uplink, _⟩
      have run := Growing.resolveRoute_of_uplink wired atX atX uplink virtual
      have routes := Growing.routes_of_resolveRoute wired layered run
      refine ⟨_, run, routes, ?_⟩
      rw [if_pos ⟨rfl, virtual⟩]
      refine ⟨up, fun link => ⟨?_, ?_⟩, rfl⟩
      · rintro ⟨y, joins⟩
        exact racked.eq_uplink names isHost (inRack i isHost) routes.source uplink joins
      · rintro rfl
        exact ⟨tor, (Growing.climbs_of_uplink layered uplink).1⟩
    · rcases racked.exists_route isHost (inRack i isHost) isHost' (inRack j isHost') virtual with
        ⟨route, run, length⟩
      refine ⟨route, run, Growing.routes_of_resolveRoute wired layered run, ?_⟩
      rw [if_neg virtual]
      exact length

/-- A link and its reverse are the two directions of one cable. -/
structure Growing.Reversible (g : Growing ℕ) : Prop where
  involutive : Function.Involutive Cluster.getReverseLink
  swaps : ∀ link x y bandwidth, g.toCluster.links[link]? = some ⟨x, y, bandwidth⟩ →
    g.toCluster.links[Cluster.getReverseLink link]? = some ⟨y, x, bandwidth⟩

theorem Growing.Wired.reversible {g : Growing ℕ} (wired : g.Wired) : g.Reversible where
  involutive := Growing.reverse_reverse
  swaps link x y bandwidth known := by
    rw [toCluster, List.getElem?_map, Option.map_eq_some_iff] at known ⊢
    rcases known with ⟨⟨x', y', found⟩, isEdge, same⟩
    rw [Link.mk.injEq] at same
    rcases same with ⟨rfl, rfl, rfl⟩
    exact ⟨_, wired.paired link _ _ _ isEdge, rfl⟩

theorem resolveRoute_correct :
    (∀ racks rackSize g, Built racks rackSize g → RackRoutes racks rackSize g) ∧
      ∀ growths g, Runs.Reached (· = {}) Growing.LayeredStep growths g → g.Reversible ∧
        ∀ src dst vsrc vdst route, g.toCluster.resolveRoute src dst vsrc vdst = .ok route →
          g.Routes src dst route := by
  refine ⟨fun _ _ _ built => built.rackRoutes, ?_⟩
  intro growths g reached
  rcases Growing.layered_of_reached reached with ⟨wired, layered⟩
  exact ⟨wired.reversible, fun _ _ _ _ _ run => Growing.routes_of_resolveRoute wired layered run⟩

/-- Two racks of two hosts, of which the first and the last are in different racks. -/
theorem resolveRoute_correct_racks : ∃ g route, buildArbitraryCluster 2 2 100 400 = .ok g ∧
    g.Reversible ∧ g.toCluster.resolveRoute (hostName 0) (hostName 3) none none = .ok route ∧
      g.Routes (hostName 0) (hostName 3) route ∧ route.path.length = 4 := by
  rcases buildArbitraryCluster_racked 2 2 100 400 with ⟨g, run, racked⟩
  rcases racked.grown.reached with ⟨growths, reached⟩
  rcases resolveRoute_correct with ⟨built, grown⟩
  rcases (built 2 2 g (.arbitrary run)).routes 0 (by decide) 3 (by decide) none none with
    ⟨route, isRoute, _, length⟩
  rcases grown growths g reached with ⟨reversible, routes⟩
  exact ⟨g, route, run, reversible, isRoute, routes _ _ _ _ _ isRoute, length⟩

end Phantora.Netsim
