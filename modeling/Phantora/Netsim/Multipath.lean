import Mathlib.Data.List.Forall2
import Phantora.Netsim.Routing

/-!
# Routes over several paths

With several links up, a load balancer chooses the way from the source, while
all the nodes that the destination reaches are collected layer by layer. Where
the two meet, the way down is read back from the layers.
-/

namespace Phantora.Netsim

open Outcome Walks

namespace Cluster

/-- The nodes of a layer that the destination reaches, and the links that lead to them. -/
abbrev SearchLayer := List NodeIx × List LinkIx

def getTarget (cluster : Cluster) (link : LinkIx) : Except Panic NodeIx := do
  return (← unwrap cluster.links[link]? .unknownNode).target

def getSource (cluster : Cluster) (link : LinkIx) : Except Panic NodeIx := do
  return (← unwrap cluster.links[link]? .unknownNode).source

/-- Add the parents of a node to the next layer. -/
def widen (cluster : Cluster) (next : SearchLayer) (y : NodeIx) : Except Panic SearchLayer := do
  let node ← unwrap cluster.nodes[y]? .unknownNode
  let targets ← node.parent.mapM cluster.getTarget
  return (next.1 ++ targets, next.2 ++ node.parent)

/-- The parents of a layer. -/
def nextLayer (cluster : Cluster) (ys : List NodeIx) : Except Panic SearchLayer :=
  ys.foldlM cluster.widen ([], [])

/-- The link up that a hash value stands for. -/
def choose (cluster : Cluster) (hash : ℕ) (x : NodeIx) : Except Panic LinkIx := do
  let node ← unwrap cluster.nodes[x]? .unknownNode
  assert (node.parent.length ≠ 0) Panic.noParent
  unwrap node.parent[hash % node.parent.length]? .noParent

/-- First pass: climb where the hash values lead until the last layer has been met. The layers are
kept with the last one first. -/
def ascend (cluster : Cluster) : (ℕ → ℕ) → ℕ → NodeIx → List LinkIx → SearchLayer →
    List SearchLayer → Except Panic (NodeIx × List LinkIx × SearchLayer × List SearchLayer)
  | _, 0, x, path1, layer, below => .ok (x, path1, layer, below)
  | _, 1, x, path1, layer, below => .ok (x, path1, layer, below)
  | hash, depth + 2, x, path1, layer, below =>
      if x ∈ layer.1 then .ok (x, path1, layer, below)
      else do
        let parx ← cluster.choose (hash 0) x
        let x ← cluster.getTarget parx
        let next ← cluster.nextLayer layer.1
        cluster.ascend (fun call => hash (call + 1)) (depth + 1) x (path1 ++ [parx]) next
          (layer :: below)

/-- Second pass: descend by the first link of each layer that leads to the node. -/
def descend (cluster : Cluster) (dst : NodeIx) : NodeIx → List SearchLayer →
    Except Panic (List LinkIx)
  | _, [] => .ok []
  | x, (ys, ysFrom) :: below =>
      if x = dst then .ok []
      else do
        assert (ys.length = ysFrom.length ∨ ysFrom.length = 0 ∧ ys = [dst]) Panic.layersMisaligned
        let pos ← unwrap (ys.findIdx? (· == x)) .notInLayer
        let parx ← unwrap ysFrom[pos]? .layersMisaligned
        let x ← cluster.getSource parx
        let path2 ← cluster.descend dst x below
        return getReverseLink parx :: path2

/-- The route that a load balancer chooses, by the values that its hash function returns one after
the other; without one, the single-path route. -/
def resolveRouteMultipath (cluster : Cluster) (src dst : String) (vsrc vdst : Option String)
    (loadBalancer : Option (ℕ → ℕ)) : Except Panic Route :=
  match loadBalancer with
  | none => cluster.resolveRoute src dst vsrc vdst
  | some hash => do
      let srcId ← unwrap (cluster.nodeMap src) .unknownNode
      let dstId ← unwrap (cluster.nodeMap dst) .unknownNode
      let srcNode ← unwrap cluster.nodes[srcId]? .unknownNode
      let dstNode ← unwrap cluster.nodes[dstId]? .unknownNode
      assert (srcNode.depth = dstNode.depth) Panic.depthMismatch
      if srcId = dstId then cluster.resolveRoute src dst vsrc vdst
      else
        let (x, path1, layer, below) ← cluster.ascend hash srcNode.depth srcId [] ([dstId], []) []
        assert (x ∈ layer.1) Panic.routeNotFound
        let path2 ← cluster.descend dstId x (layer :: below)
        return ⟨srcId, dstId, path1 ++ path2⟩

end Cluster

namespace Growing

variable {g : Growing ℕ} {dst : NodeIx} {layer : Cluster.SearchLayer}
  {below : List Cluster.SearchLayer}

/-- The links that lead up to a layer, each from some node of the layer below. -/
abbrev Reaches (g : Growing ℕ) (ys : List NodeIx) (links : List LinkIx) (nodes : List NodeIx) :
    Prop :=
  List.Forall₂ (fun link y' => ∃ y ∈ ys, Climbs g.Joins g.depthOf link y y') links nodes

theorem climbs_of_getTarget (layered : g.Layered) {x y : NodeIx} {node : Node} {link : LinkIx}
    (known : g.nodes[x]? = some node) (mem : link ∈ node.parent)
    (run : g.toCluster.getTarget link = .ok y) : Climbs g.Joins g.depthOf link x y := by
  simp only [Cluster.getTarget, bind_eq_ok, unwrap_eq_ok, pure_eq_ok] at run
  rcases run with ⟨edge, isLink, rfl⟩
  exact climbs_of_parent layered known mem isLink

/-- The two vectors of a layer stay aligned. -/
theorem reaches_of_nextLayer (layered : g.Layered) {ys : List NodeIx}
    (run : g.toCluster.nextLayer ys = .ok layer) : g.Reaches ys layer.2 layer.1 := by
  refine foldlM_invariant (fun next => g.Reaches ys next.2 next.1) ?_ .nil run
  intro next y next' mem reaches step
  simp only [Cluster.widen, bind_eq_ok, unwrap_eq_ok, pure_eq_ok] at step
  rcases step with ⟨node, known, targets, traversal, rfl⟩
  refine List.rel_append reaches ?_
  refine mapM_forall₂ ?_ traversal
  intro link isParent y' run
  exact ⟨y, mem, climbs_of_getTarget layered known isParent run⟩

theorem climbs_of_choose (layered : g.Layered) {x y : NodeIx} {hash : ℕ} {link : LinkIx}
    (chosen : g.toCluster.choose hash x = .ok link)
    (run : g.toCluster.getTarget link = .ok y) : Climbs g.Joins g.depthOf link x y := by
  simp only [Cluster.choose, bind_eq_ok, unwrap_eq_ok, assert_eq_ok] at chosen
  rcases chosen with ⟨node, known, ⟨⟩, _, isParent⟩
  exact climbs_of_getTarget layered known (List.mem_of_getElem? isParent) run

/-- The first pass goes up on one side and builds layers on the other. -/
theorem walk_of_ascend (layered : g.Layered) {hash : ℕ → ℕ} {depth : ℕ} {x top : NodeIx}
    {path1 path1' : List LinkIx} {layer' : Cluster.SearchLayer}
    {below' : List Cluster.SearchLayer} (tower : Tower (Climbs g.Joins g.depthOf) dst layer below)
    (run : g.toCluster.ascend hash depth x path1 layer below = .ok (top, path1', layer', below')) :
    Tower (Climbs g.Joins g.depthOf) dst layer' below' ∧
      ∃ up, path1' = path1 ++ up ∧ Walk (Climbs g.Joins g.depthOf) x up top := by
  induction hash, depth, x, path1, layer, below using Cluster.ascend.induct with
  | case1 hash x path1 layer below =>
      cases run
      exact ⟨tower, [], by simp, .nil _⟩
  | case2 hash x path1 layer below =>
      cases run
      exact ⟨tower, [], by simp, .nil _⟩
  | case3 hash depth x path1 layer below met =>
      rw [Cluster.ascend, if_pos met] at run
      cases run
      exact ⟨tower, [], by simp, .nil _⟩
  | case4 hash depth x path1 layer below apart ih =>
      rw [Cluster.ascend, if_neg apart] at run
      simp only [bind_eq_ok] at run
      rcases run with ⟨parx, chosen, x', target, next, widened, run⟩
      have reaches := reaches_of_nextLayer layered widened
      rcases ih parx x' next (tower.layer reaches) run with ⟨tower', up, rfl, climb⟩
      exact ⟨tower', parx :: up, by simp, .cons (climbs_of_choose layered chosen target) climb⟩

theorem getSource_eq_ok {link : LinkIx} {x y : NodeIx} (joins : g.Joins link x y) :
    g.toCluster.getSource link = .ok x := by
  rcases joins with ⟨bandwidth, isEdge⟩
  simp only [Cluster.getSource, bind_eq_ok, unwrap_eq_ok, pure_eq_ok]
  exact ⟨⟨x, y, bandwidth⟩, by simp [toCluster, isEdge], rfl⟩

/-- The second pass succeeds from every node of the last layer, and goes down to the bottom. -/
theorem exists_descend (wired : g.Wired)
    (tower : Tower (Climbs g.Joins g.depthOf) dst layer below) {x : NodeIx} (mem : x ∈ layer.1) :
    ∃ path2, g.toCluster.descend dst x (layer :: below) = .ok path2 ∧
      Walk (Falls g.Joins g.depthOf) x path2 dst := by
  induction tower generalizing x with
  | base =>
      rw [List.mem_singleton.mp mem, Cluster.descend, if_pos rfl]
      exact ⟨[], rfl, .nil dst⟩
  | @layer nodes links last below _ reached ih =>
      by_cases arrived : x = dst
      · rw [Cluster.descend, if_pos arrived, arrived]
        exact ⟨[], rfl, .nil dst⟩
      · have found : ∃ pos, nodes.findIdx? (· == x) = some pos := by
          apply Option.isSome_iff_exists.mp
          rw [List.findIdx?_isSome, List.any_eq_true]
          exact ⟨x, mem, beq_self_eq_true x⟩
        rcases found with ⟨pos, found⟩
        rcases List.findIdx?_eq_some_iff_getElem.mp found with ⟨inside, isX, _⟩
        have inLinks : pos < links.length := by
          rw [reached.length_eq]
          exact inside
        rcases reached.get inLinks inside with ⟨y, memY, climbs⟩
        simp only [List.get_eq_getElem, eq_of_beq isX] at climbs
        rcases ih memY with ⟨path2, run, fall⟩
        refine ⟨Cluster.getReverseLink links[pos] :: path2, ?_,
          .cons (falls_of_climbs (fun _ _ _ => turn_joins wired) climbs) fall⟩
        rw [Cluster.descend, if_neg arrived]
        simp only [bind_eq_ok, assert_eq_ok, unwrap_eq_ok, pure_eq_ok]
        exact ⟨⟨⟩, Or.inl reached.length_eq.symm, pos, found, links[pos],
          List.getElem?_eq_getElem inLinks, y, getSource_eq_ok climbs.1, path2, run, rfl⟩

/-- A route over several paths goes up and then down, whatever the hash values. -/
theorem routes_of_resolveRouteMultipath (wired : g.Wired) (layered : g.Layered)
    {src dst : String} {vsrc vdst : Option String} {loadBalancer : Option (ℕ → ℕ)} {route : Route}
    (run : g.toCluster.resolveRouteMultipath src dst vsrc vdst loadBalancer = .ok route) :
    g.Routes src dst route := by
  cases loadBalancer with
  | none => exact routes_of_resolveRoute wired layered run
  | some hash =>
      simp only [Cluster.resolveRouteMultipath, bind_eq_ok, unwrap_eq_ok, assert_eq_ok] at run
      rcases run with ⟨srcId, isSrc, dstId, isDst, srcNode, _, dstNode, _, ⟨⟩, _, run⟩
      split at run
      · exact routes_of_resolveRoute wired layered run
      · simp only [bind_eq_ok, assert_eq_ok, pure_eq_ok, Prod.exists] at run
        rcases run with ⟨x, path1, nodes, links, below, ascent, ⟨⟩, met, path2, descent, rfl⟩
        rcases walk_of_ascend layered .base ascent with ⟨tower, up, rfl, climb⟩
        rcases exists_descend wired tower met with ⟨path2', descent', fall⟩
        rw [descent, Except.ok.injEq] at descent'
        subst descent'
        refine ⟨isSrc, isDst, ?_⟩
        have walks := upDown_of_walks functional_joins climb fall
        simpa using walks

/-- The node does not have two links up. -/
def SingleParent (g : Growing ℕ) (ix : NodeIx) : Prop :=
  ∀ node, g.nodes[ix]? = some node → node.parent.length ≤ 1

/-- The layers of single nodes that climbing from the destination leaves behind, with
the way back. -/
inductive Trail (g : Growing ℕ) (dst : NodeIx) :
    NodeIx → Cluster.SearchLayer → List Cluster.SearchLayer → List LinkIx → Prop
  | start : Trail g dst dst ([dst], []) [] []
  | up {y y' : NodeIx} {layer : Cluster.SearchLayer} {below : List Cluster.SearchLayer}
      {path2 : List LinkIx} {link : LinkIx} (rest : Trail g dst y layer below path2)
      (climbs : Climbs g.Joins g.depthOf link y y') :
      Trail g dst y' ([y'], [link]) (layer :: below) (Cluster.getReverseLink link :: path2)

variable {y : NodeIx} {path1 path2 : List LinkIx}

theorem Trail.nodes_eq (trail : g.Trail dst y layer below path2) : layer.1 = [y] := by
  cases trail with
  | start => rfl
  | up => rfl

theorem Trail.depth_le (trail : g.Trail dst y layer below path2) :
    g.depthOf y ≤ g.depthOf dst := by
  induction trail with
  | start => exact Nat.le_refl _
  | up _ climbs ih =>
      have lower := climbs.2
      omega

/-- The way back is what the second pass finds. -/
theorem Trail.descend_eq (trail : g.Trail dst y layer below path2) :
    g.toCluster.descend dst y (layer :: below) = .ok path2 := by
  induction trail with
  | start => rw [Cluster.descend, if_pos rfl]
  | @up y y' layer below path2 link rest climbs ih =>
      have above : y' ≠ dst := by
        rintro rfl
        have higher := rest.depth_le
        have lower := climbs.2
        omega
      rw [Cluster.descend, if_neg above]
      simp only [bind_eq_ok, assert_eq_ok, unwrap_eq_ok, pure_eq_ok]
      exact ⟨⟨⟩, Or.inl rfl, 0, by simp, link, rfl, y, getSource_eq_ok climbs.1, path2, ih, rfl⟩

/-- With one link up, every hash value chooses it. -/
theorem choose_iff {x : NodeIx} (single : g.SingleParent x) (hash : ℕ) {x' : NodeIx}
    {link : LinkIx} :
    (g.toCluster.choose hash x = .ok link ∧ g.toCluster.getTarget link = .ok x') ↔
      g.toCluster.uplink x = .ok (link, x') := by
  simp only [Cluster.choose, Cluster.uplink, Cluster.getTarget, bind_eq_ok, unwrap_eq_ok,
    assert_eq_ok, pure_eq_ok, Prod.mk.injEq]
  constructor
  · rintro ⟨⟨node, known, ⟨⟩, some, chosen⟩, edge, isLink, rfl⟩
    have one : node.parent.length = 1 :=
      Nat.le_antisymm (single node known) (Nat.pos_of_ne_zero some)
    rw [one, Nat.mod_one] at chosen
    exact ⟨node, known, link, chosen, edge, isLink, rfl, rfl⟩
  · rintro ⟨node, known, link', first, edge, isLink, rfl, rfl⟩
    have inside := (List.getElem?_eq_some_iff.mp first).1
    have one : node.parent.length = 1 := Nat.le_antisymm (single node known) inside
    refine ⟨⟨node, known, ⟨⟩, by omega, ?_⟩, edge, isLink, rfl⟩
    rw [one, Nat.mod_one]
    exact first

theorem singleParent_of_place (wired : g.Wired) {name : String} {ix : NodeIx} {found : Place ℕ}
    (known : g.nodeMap name = some ix) (isPlace : g.place name = some found)
    (few : found.uplinks.length ≤ 1) : g.SingleParent ix := by
  intro node isNode
  rcases wired.exists_of_place isPlace with ⟨ix', node', known', isNode', _, _, _, leads⟩
  rw [known, Option.some.injEq] at known'
  subst known'
  rw [isNode, Option.some.injEq] at isNode'
  subst isNode'
  have led : (node.parent.filterMap g.leadsTo).length = node.parent.length := by
    rw [List.filterMap_length_eq_length]
    intro link mem
    rcases (wired.adjacent ix node isNode link).mp (Or.inl mem) with ⟨y, bandwidth, isEdge⟩
    rw [leadsTo, isEdge]
    rfl
  rw [← led, leads]
  exact few

/-- The layer above a single node is a single node, or there is none. -/
theorem nextLayer_singleton (single : g.SingleParent y) {next : Cluster.SearchLayer}
    (run : g.toCluster.nextLayer [y] = .ok next) :
    next.1 = [] ∨ ∃ link y', g.toCluster.uplink y = .ok (link, y') ∧ next = ([y'], [link]) := by
  simp only [Cluster.nextLayer, List.foldlM_cons, List.foldlM_nil, Cluster.widen, bind_eq_ok,
    unwrap_eq_ok, pure_eq_ok, List.nil_append] at run
  rcases run with ⟨_, ⟨node, known, targets, traversal, rfl⟩, rfl⟩
  cases isParent : node.parent with
  | nil =>
      rw [isParent, List.mapM_nil, pure_eq_ok] at traversal
      exact Or.inl traversal.symm
  | cons link rest =>
      have one := single node known
      rw [isParent, List.length_cons] at one
      have alone : rest = [] := List.eq_nil_of_length_eq_zero (by omega)
      subst alone
      rw [isParent] at traversal
      simp only [List.mapM_cons, List.mapM_nil, bind_eq_ok, pure_eq_ok, Cluster.getTarget,
        unwrap_eq_ok] at traversal
      rcases traversal with ⟨y', ⟨edge, isLink, rfl⟩, _, rfl, rfl⟩
      refine Or.inr ⟨link, edge.target, ?_, rfl⟩
      simp only [Cluster.uplink, bind_eq_ok, unwrap_eq_ok, pure_eq_ok]
      exact ⟨node, known, link, by rw [isParent]; rfl, edge, isLink, rfl⟩

theorem nextLayer_of_uplink (single : g.SingleParent y) {y' : NodeIx} {link : LinkIx}
    (uplink : g.toCluster.uplink y = .ok (link, y')) :
    g.toCluster.nextLayer [y] = .ok ([y'], [link]) := by
  simp only [Cluster.uplink, bind_eq_ok, unwrap_eq_ok, pure_eq_ok, Prod.mk.injEq] at uplink
  rcases uplink with ⟨node, known, link', first, edge, isLink, rfl, rfl⟩
  have one := single node known
  have isParent : node.parent = [link'] := by
    cases parents : node.parent with
    | nil => simp [parents] at first
    | cons head rest =>
        rw [parents, List.length_cons] at one
        have alone : rest = [] := List.eq_nil_of_length_eq_zero (by omega)
        rw [parents, List.getElem?_cons_zero, Option.some.injEq] at first
        rw [alone, first]
  have targets : node.parent.mapM g.toCluster.getTarget = .ok [edge.target] := by
    simp only [isParent, List.mapM_cons, List.mapM_nil, Cluster.getTarget, bind_eq_ok, unwrap_eq_ok,
      pure_eq_ok]
    exact ⟨_, ⟨edge, isLink, rfl⟩, [], rfl, rfl⟩
  simp only [Cluster.nextLayer, List.foldlM_cons, List.foldlM_nil, Cluster.widen, bind_eq_ok,
    unwrap_eq_ok, pure_eq_ok, List.nil_append]
  exact ⟨_, ⟨node, known, [edge.target], targets, rfl⟩, by rw [isParent]⟩

/-- Above an empty layer there are only empty layers. -/
theorem nodes_of_ascend {hash : ℕ → ℕ} {depth : ℕ} {x top : NodeIx} {path1' : List LinkIx}
    {layer' : Cluster.SearchLayer} {below' : List Cluster.SearchLayer} (empty : layer.1 = [])
    (run : g.toCluster.ascend hash depth x path1 layer below = .ok (top, path1', layer', below')) :
    layer'.1 = [] := by
  induction hash, depth, x, path1, layer, below using Cluster.ascend.induct with
  | case1 => cases run; exact empty
  | case2 => cases run; exact empty
  | case3 hash depth x path1 layer below met =>
      rw [empty] at met
      cases met
  | case4 hash depth x path1 layer below apart ih =>
      rw [Cluster.ascend, if_neg apart, empty] at run
      simp only [bind_eq_ok, Cluster.nextLayer, List.foldlM_nil, pure_eq_ok] at run
      rcases run with ⟨parx, _, x', _, next, rfl, run⟩
      exact ih parx x' ([], []) rfl run

/-- Where both searches stop, they have met in the same node with the same way back,
or not at all. -/
theorem Trail.stops {x : NodeIx} (trail : g.Trail dst y layer below path2) (path : List LinkIx) :
    (∃ top up down, (Except.ok (x, y, path1, path2) : Except Panic _) = .ok (top, top, up, down) ∧
        path = up ++ down) ↔
      ∃ top up layer' below' down, (Except.ok (x, path1, layer, below) : Except Panic _) =
        .ok (top, up, layer', below') ∧ top ∈ layer'.1 ∧
          g.toCluster.descend dst top (layer' :: below') = .ok down ∧ path = up ++ down := by
  constructor
  · rintro ⟨top, up, down, same, rfl⟩
    cases same
    exact ⟨_, _, _, _, _, rfl, by simp [trail.nodes_eq], trail.descend_eq, rfl⟩
  · rintro ⟨top, up, layer', below', down, same, met, descent, rfl⟩
    cases same
    rw [trail.nodes_eq, List.mem_singleton] at met
    subst met
    rw [trail.descend_eq, Except.ok.injEq] at descent
    subst descent
    exact ⟨_, _, _, rfl, rfl⟩

/-- Both searches keep step. -/
theorem climb_iff_ascend (layered : g.Layered) (single : ∀ ix, g.SingleParent ix) {hash : ℕ → ℕ}
    {depth : ℕ} {x : NodeIx} (trail : g.Trail dst y layer below path2) (path : List LinkIx) :
    (∃ top up down, g.toCluster.climb depth x y path1 path2 = .ok (top, top, up, down) ∧
        path = up ++ down) ↔
      ∃ top up layer' below' down,
        g.toCluster.ascend hash depth x path1 layer below = .ok (top, up, layer', below') ∧
          top ∈ layer'.1 ∧ g.toCluster.descend dst top (layer' :: below') = .ok down ∧
            path = up ++ down := by
  induction hash, depth, x, path1, layer, below using Cluster.ascend.induct
    generalizing y path2 with
  | case1 => exact trail.stops path
  | case2 => exact trail.stops path
  | case3 hash depth x path1 layer below met =>
      have same : x = y := by simpa [trail.nodes_eq] using met
      rw [Cluster.climb, if_pos same, Cluster.ascend, if_pos met]
      exact trail.stops path
  | case4 hash depth x path1 layer below apart ih =>
      have differ : x ≠ y := by simpa [trail.nodes_eq] using apart
      rw [Cluster.climb, if_neg differ, Cluster.ascend, if_neg apart, trail.nodes_eq]
      simp only [bind_eq_ok, Prod.exists]
      constructor
      · rintro ⟨top, up, down, ⟨parx, x', upX, pary, y', upY, climb⟩, rfl⟩
        have longer := trail.up (climbs_of_uplink layered upY)
        rcases (choose_iff (single x) (hash 0)).mpr upX with ⟨chosen, target⟩
        rcases (ih parx x' ([y'], [pary]) longer).mp ⟨top, up, down, climb, rfl⟩ with
          ⟨top', up', layer', below', down', ascent, met, descent, same⟩
        exact ⟨top', up', layer'.1, layer'.2, below', down', ⟨parx, chosen, x', target, _, _,
          nextLayer_of_uplink (single y) upY, ascent⟩, met, descent, same⟩
      · rintro ⟨top, up, nodes, links, below', down, ⟨parx, chosen, x', target, ys, ysFrom, widened,
          ascent⟩, met, descent, rfl⟩
        rcases nextLayer_singleton (single y) widened with empty | ⟨pary, y', upY, isNext⟩
        · have nowhere : nodes = [] := nodes_of_ascend empty ascent
          rw [nowhere] at met
          cases met
        · rw [isNext] at ascent
          have longer := trail.up (climbs_of_uplink layered upY)
          have upX := (choose_iff (single x) (hash 0)).mp ⟨chosen, target⟩
          rcases (ih parx x' ([y'], [pary]) longer).mpr
            ⟨top, up, (nodes, links), below', down, ascent, met, descent, rfl⟩ with
            ⟨top', up', down', climb, same⟩
          exact ⟨top', up', down', ⟨parx, x', upX, pary, y', upY, climb⟩, same⟩

/-- Where no node has two links up, the load balancer makes no difference. -/
theorem resolveRouteMultipath_iff (layered : g.Layered) (single : ∀ ix, g.SingleParent ix)
    {src dst : String} {vsrc vdst : Option String} {loadBalancer : Option (ℕ → ℕ)} {route : Route} :
    g.toCluster.resolveRouteMultipath src dst vsrc vdst loadBalancer = .ok route ↔
      g.toCluster.resolveRoute src dst vsrc vdst = .ok route := by
  cases loadBalancer with
  | none => exact Iff.rfl
  | some hash =>
      constructor
      · intro run
        simp only [Cluster.resolveRouteMultipath, bind_eq_ok, unwrap_eq_ok, assert_eq_ok] at run
        rcases run with ⟨srcId, isSrc, dstId, isDst, srcNode, known, dstNode, known',
          ⟨⟩, level, run⟩
        split at run
        · exact run
        · rename_i apart
          simp only [bind_eq_ok, assert_eq_ok, pure_eq_ok, Prod.exists] at run
          rcases run with ⟨x, path1, nodes, links, below, ascent, ⟨⟩, met, path2, descent, rfl⟩
          rcases (climb_iff_ascend layered single .start _).mpr
            ⟨x, path1, (nodes, links), below, path2, ascent, met, descent, rfl⟩ with
            ⟨top, up, down, climb, same⟩
          simp only [Cluster.resolveRoute, bind_eq_ok, unwrap_eq_ok, assert_eq_ok]
          refine ⟨srcId, isSrc, dstId, isDst, srcNode, known, dstNode, known', ⟨⟩, level, ?_⟩
          rw [if_neg fun virtual => apart virtual.1, same]
          simp only [bind_eq_ok, assert_eq_ok, pure_eq_ok, Prod.exists]
          exact ⟨top, top, up, down, climb, ⟨⟩, rfl, rfl⟩
      · intro run
        have whole := run
        simp only [Cluster.resolveRoute, bind_eq_ok, unwrap_eq_ok, assert_eq_ok] at run
        rcases run with ⟨srcId, isSrc, dstId, isDst, srcNode, known, dstNode, known',
          ⟨⟩, level, run⟩
        simp only [Cluster.resolveRouteMultipath, bind_eq_ok, unwrap_eq_ok, assert_eq_ok]
        refine ⟨srcId, isSrc, dstId, isDst, srcNode, known, dstNode, known', ⟨⟩, level, ?_⟩
        by_cases apart : srcId = dstId
        · rw [if_pos apart]
          exact whole
        · rw [if_neg fun virtual => apart virtual.1] at run
          simp only [bind_eq_ok, assert_eq_ok, pure_eq_ok, Prod.exists] at run
          rcases run with ⟨top, _, up, down, climb, ⟨⟩, rfl, rfl⟩
          rcases (climb_iff_ascend layered single .start _).mp ⟨top, up, down, climb, rfl⟩ with
            ⟨x, path1, layer, below, path2, ascent, met, descent, same⟩
          rw [if_neg apart, same]
          simp only [bind_eq_ok, assert_eq_ok, pure_eq_ok, Prod.exists]
          exact ⟨x, path1, layer.1, layer.2, below, ascent, ⟨⟩, met, path2, descent, rfl⟩

theorem getTarget_eq_ok {link : LinkIx} {x y : NodeIx} (joins : g.Joins link x y) :
    g.toCluster.getTarget link = .ok y := by
  rcases joins with ⟨bandwidth, isEdge⟩
  simp only [Cluster.getTarget, bind_eq_ok, unwrap_eq_ok, pure_eq_ok]
  exact ⟨⟨x, y, bandwidth⟩, by simp [toCluster, isEdge], rfl⟩

/-- The next layer has every parent of a known node. -/
theorem exists_nextLayer (wired : g.Wired) {y : NodeIx} {node : Node}
    (known : g.nodes[y]? = some node) : ∃ next, g.toCluster.nextLayer [y] = .ok next ∧
      ∀ link ∈ node.parent, ∀ y', g.Joins link y y' → y' ∈ next.1 := by
  have each : ∀ link ∈ node.parent, ∃ y', g.toCluster.getTarget link = .ok y' := by
    intro link mem
    rcases (wired.adjacent y node known link).mp (Or.inl mem) with ⟨y', joins⟩
    exact ⟨y', getTarget_eq_ok joins⟩
  rcases mapM_total each with ⟨targets, traversal⟩
  refine ⟨([] ++ targets, [] ++ node.parent), ?_, ?_⟩
  · simp only [Cluster.nextLayer, List.foldlM_cons, List.foldlM_nil, Cluster.widen, bind_eq_ok,
      unwrap_eq_ok, pure_eq_ok]
    exact ⟨_, ⟨node, known, targets, traversal, rfl⟩, rfl⟩
  · intro link mem y' joins
    have aligned := mapM_forall₂ (R := fun link y' => g.toCluster.getTarget link = .ok y')
      (fun _ _ _ run => run) traversal
    rcases List.mem_iff_getElem.mp mem with ⟨pos, inside, rfl⟩
    have inTargets : pos < targets.length := aligned.length_eq ▸ inside
    have isTarget := aligned.get inside inTargets
    simp only [List.get_eq_getElem] at isTarget
    rw [getTarget_eq_ok joins, Except.ok.injEq] at isTarget
    rw [isTarget]
    exact List.mem_append_right _ (List.getElem_mem inTargets)

/-- A hash value chooses some uplink of a place that has one. -/
theorem exists_choose (wired : g.Wired) {name : String} {x : NodeIx} {found : Place ℕ}
    (known : g.nodeMap name = some x) (isPlace : g.place name = some found)
    (some : found.uplinks ≠ []) (hash : ℕ) : ∃ link y uplink,
      g.toCluster.choose hash x = .ok link ∧ g.toCluster.getTarget link = .ok y ∧
        uplink ∈ found.uplinks ∧ g.nodeMap uplink.1 = .some y := by
  rcases wired.exists_of_place isPlace with ⟨x', node, known', isNode, _, _, _, leads⟩
  rw [known, Option.some.injEq] at known'
  subst known'
  have nonempty : node.parent.length ≠ 0 := by
    intro none
    rw [List.eq_nil_of_length_eq_zero none, List.filterMap_nil] at leads
    exact some leads.symm
  have inside := Nat.mod_lt hash (Nat.pos_of_ne_zero nonempty)
  have mem := List.getElem_mem inside
  rcases (wired.adjacent x node isNode _).mp (Or.inl mem) with ⟨y, joins⟩
  have isTop := wired.joins_target joins
  rcases joins with ⟨bandwidth, isEdge⟩
  have isLed : g.leadsTo node.parent[hash % node.parent.length] =
      .some (g.nameOf y, bandwidth) := by
    rw [leadsTo, isEdge]
    rfl
  refine ⟨_, y, (g.nameOf y, bandwidth), ?_, getTarget_eq_ok ⟨bandwidth, isEdge⟩, ?_, ?_⟩
  · simp only [Cluster.choose, bind_eq_ok, unwrap_eq_ok, assert_eq_ok]
    exact ⟨node, isNode, ⟨⟩, nonempty, List.getElem?_eq_getElem inside⟩
  · rw [← leads]
    exact List.mem_filterMap.mpr ⟨_, mem, isLed⟩
  · have topNode := List.getElem?_eq_getElem isTop
    refine (wired.named _ y).mpr ⟨_, topNode, ?_⟩
    simp [nameOf, topNode]

/-- The layer above a place has every node that its uplinks name. -/
theorem exists_layer (wired : g.Wired) {name : String} {y : NodeIx} {found : Place ℕ}
    (known : g.nodeMap name = some y) (isPlace : g.place name = some found) : ∃ next,
      g.toCluster.nextLayer [y] = .ok next ∧
        ∀ uplink ∈ found.uplinks, ∀ y', g.nodeMap uplink.1 = some y' → y' ∈ next.1 := by
  rcases wired.exists_of_place isPlace with ⟨y', node, known', isNode, _, _, _, leads⟩
  rw [known, Option.some.injEq] at known'
  subst known'
  rcases exists_nextLayer wired isNode with ⟨next, run, all⟩
  refine ⟨next, run, ?_⟩
  intro uplink mem y' isNamed
  rw [← leads] at mem
  rcases List.mem_filterMap.mp mem with ⟨link, isParent, isLed⟩
  rcases (wired.adjacent y node isNode link).mp (Or.inl isParent) with ⟨top, joins⟩
  have isTop := wired.joins_target joins
  have topNode := List.getElem?_eq_getElem isTop
  have isName : uplink.1 = g.nodes[top].name := by
    rcases joins with ⟨bandwidth, isEdge⟩
    rw [leadsTo, isEdge, Option.map_some, Option.some.injEq] at isLed
    rw [← isLed]
    simp [nameOf, topNode]
  have named := (wired.named uplink.1 top).mpr ⟨_, topNode, isName.symm⟩
  rw [isNamed, Option.some.injEq] at named
  rw [named]
  exact all link isParent top joins

/-- Once the first pass meets the other side, a route is found. -/
theorem exists_multipath (wired : g.Wired) (layered : g.Layered) {src dst : String}
    {x y top : NodeIx} {vsrc vdst : Option String} {hash : ℕ → ℕ} {path1 : List LinkIx}
    (isSrc : g.nodeMap src = some x) (isDst : g.nodeMap dst = some y)
    (level : g.depthOf x = g.depthOf y) (apart : x ≠ y)
    (ascent : g.toCluster.ascend hash (g.depthOf x) x [] ([y], []) [] =
      .ok (top, path1, layer, below)) (met : top ∈ layer.1) :
    ∃ route, g.toCluster.resolveRouteMultipath src dst vsrc vdst (some hash) = .ok route := by
  rcases (wired.named src x).mp isSrc with ⟨srcNode, known, _⟩
  rcases (wired.named dst y).mp isDst with ⟨dstNode, known', _⟩
  rcases walk_of_ascend layered .base ascent with ⟨tower, _⟩
  rcases exists_descend wired tower met with ⟨path2, descent, _⟩
  have depth : g.depthOf x = srcNode.depth := by simp [depthOf, known]
  have depth' : g.depthOf y = dstNode.depth := by simp [depthOf, known']
  rw [depth] at ascent level
  rw [depth'] at level
  refine ⟨⟨x, y, path1 ++ path2⟩, ?_⟩
  simp only [Cluster.resolveRouteMultipath, bind_eq_ok, unwrap_eq_ok, assert_eq_ok]
  refine ⟨x, isSrc, y, isDst, srcNode, known, dstNode, known', ⟨⟩, level, ?_⟩
  rw [if_neg apart]
  simp only [bind_eq_ok, assert_eq_ok, pure_eq_ok, Prod.exists]
  exact ⟨top, path1, layer.1, layer.2, below, ascent, ⟨⟩, met, path2, descent, rfl⟩

/-- From a node to itself there is nothing to search for several paths. -/
theorem exists_multipath_of_single (wired : g.Wired) {src dst : String} {x y : NodeIx}
    {vsrc vdst : Option String} {loadBalancer : Option (ℕ → ℕ)}
    (isSrc : g.nodeMap src = some x) (isDst : g.nodeMap dst = some y)
    (easy : loadBalancer = none ∨ x = y)
    (single : ∃ route, g.toCluster.resolveRoute src dst vsrc vdst = .ok route) :
    ∃ route, g.toCluster.resolveRouteMultipath src dst vsrc vdst loadBalancer = .ok route := by
  rcases single with ⟨route, run⟩
  cases loadBalancer with
  | none => exact ⟨route, run⟩
  | some hash =>
      rcases easy with impossible | rfl
      · cases impossible
      · rcases (wired.named src x).mp isSrc with ⟨node, known, _⟩
        refine ⟨route, ?_⟩
        simp only [Cluster.resolveRouteMultipath, bind_eq_ok, unwrap_eq_ok, assert_eq_ok]
        refine ⟨x, isSrc, x, isDst, node, known, node, known, ⟨⟩, rfl, ?_⟩
        rw [if_pos rfl]
        exact run

end Growing

section Racks

variable {g : Growing ℕ} {root : String} {roots : List String} {uplinkBw hostBw : ℕ}
  {rackSize racks hosts i j : ℕ} {x y : NodeIx}

/-- From two switches of racks, any choice of an uplink leads to a root that both have. -/
theorem Racked.exists_ascend_racks
    (racked : Racked (root :: roots) uplinkBw rackSize hostBw racks hosts g) (isRack : i < racks)
    (isRack' : j < racks) (atX : g.nodeMap (torName i) = some x)
    (atY : g.nodeMap (torName j) = some y) (hash : ℕ → ℕ) (path1 : List LinkIx)
    (below : List Cluster.SearchLayer) (links : List LinkIx) : ∃ top path1' layer' below',
      g.toCluster.ascend hash 2 x path1 ([y], links) below = .ok (top, path1', layer', below') ∧
        top ∈ layer'.1 := by
  have wired := racked.grown.wired
  by_cases met : x ∈ [y]
  · rw [Cluster.ascend, if_pos met]
    exact ⟨x, path1, ([y], links), below, rfl, met⟩
  · rcases Growing.exists_choose wired atX (racked.atTors i isRack) (by simp) (hash 0) with
      ⟨parx, top, uplink, chosen, target, mem, isTop⟩
    rcases Growing.exists_layer wired atY (racked.atTors j isRack') with ⟨next, widened, all⟩
    rw [Cluster.ascend, if_neg met]
    simp only [bind_eq_ok]
    exact ⟨top, path1 ++ [parx], next, _, ⟨parx, chosen, top, target, next, widened, rfl⟩,
      all uplink mem top isTop⟩

theorem Racked.singleParent (racked : Racked roots uplinkBw rackSize hostBw racks hosts g)
    (isHost : i < hosts) (atX : g.nodeMap (hostName i) = some x) : g.SingleParent x :=
  Growing.singleParent_of_place racked.grown.wired atX (racked.atHosts i isHost) (Nat.le_refl 1)

/-- Below one root, no node has two links up. -/
theorem Racked.all_singleParent (racked : Racked [root] uplinkBw rackSize hostBw racks hosts g)
    (ix : NodeIx) : g.SingleParent ix := by
  intro node known
  have wired := racked.grown.wired
  have atIx := (wired.named node.name ix).mpr ⟨node, known, rfl⟩
  have few : ∀ found, g.place node.name = some found → found.uplinks.length ≤ 1 := by
    intro found isPlace
    rcases racked.others node.name (by simp [isPlace]) with isRoot | ⟨i, lt, same⟩ | ⟨j, lt, same⟩
    · rw [racked.atRoots _ isRoot, Option.some.injEq] at isPlace
      simp [← isPlace]
    · rw [same, racked.atTors i lt, Option.some.injEq] at isPlace
      simp [← isPlace]
    · rw [same, racked.atHosts j lt, Option.some.injEq] at isPlace
      simp [← isPlace]
  have isPlace := wired.place_eq known rfl
  exact Growing.singleParent_of_place wired atIx isPlace (few _ isPlace) node known

/-- From two hosts, the switches of their racks are reached first. -/
theorem Racked.exists_ascend_hosts
    (racked : Racked (root :: roots) uplinkBw rackSize hostBw racks hosts g)
    (isHost : i < hosts) (inRack : i / rackSize < racks) (isHost' : j < hosts)
    (inRack' : j / rackSize < racks) (atX : g.nodeMap (hostName i) = some x)
    (atY : g.nodeMap (hostName j) = some y) (hash : ℕ → ℕ) : ∃ top path1' layer' below',
      g.toCluster.ascend hash 3 x [] ([y], []) [] = .ok (top, path1', layer', below') ∧
        top ∈ layer'.1 := by
  have wired := racked.grown.wired
  by_cases met : x ∈ [y]
  · rw [Cluster.ascend, if_pos met]
    exact ⟨x, [], ([y], []), [], rfl, met⟩
  · rcases Growing.exists_choose wired atX (racked.atHosts i isHost) (by simp) (hash 0) with
      ⟨parx, torX, uplink, chosen, target, mem, isTor⟩
    rw [List.mem_singleton.mp mem] at isTor
    rcases racked.exists_uplink isHost' atY with ⟨upY, torY, uplinkY, isTor'⟩
    rcases racked.exists_ascend_racks inRack inRack' isTor isTor' (fun call => hash (call + 1))
      [parx] [([y], [])] [upY] with ⟨top, path1', layer', below', ascent, meets⟩
    refine ⟨top, path1', layer', below', ?_, meets⟩
    rw [Cluster.ascend, if_neg met]
    simp only [bind_eq_ok]
    exact ⟨parx, chosen, torX, target, _,
      Growing.nextLayer_of_uplink (racked.singleParent isHost' atY) uplinkY, ascent⟩

/-- Two nodes of one layer that is not the first are two switches of racks or two hosts. -/
theorem Racked.cases_of_level (racked : Racked roots uplinkBw rackSize hostBw racks hosts g)
    {src dst : String} (isSrc : g.nodeMap src = some x) (isDst : g.nodeMap dst = some y)
    (level : g.depthOf x = g.depthOf y) (low : 1 < g.depthOf x) :
    (g.depthOf x = 2 ∧ ∃ i < racks, ∃ j < racks, src = torName i ∧ dst = torName j) ∨
      g.depthOf x = 3 ∧ ∃ i < hosts, ∃ j < hosts, src = hostName i ∧ dst = hostName j := by
  have wired := racked.grown.wired
  have depths : ∀ name ix, g.nodeMap name = some ix → g.depthOf ix = 1 ∨
      (g.depthOf ix = 2 ∧ ∃ i < racks, name = torName i) ∨
        g.depthOf ix = 3 ∧ ∃ j < hosts, name = hostName j := by
    intro name ix known
    rcases (wired.named name ix).mp known with ⟨node, isNode, hasName⟩
    have isPlace := wired.place_eq isNode hasName
    have depth : g.depthOf ix = node.depth := by simp [Growing.depthOf, isNode]
    rw [depth]
    rcases racked.others name (by simp [isPlace]) with isRoot | ⟨i, lt, rfl⟩ | ⟨j, lt, rfl⟩
    · rw [racked.atRoots name isRoot, Option.some.injEq, Place.mk.injEq] at isPlace
      exact Or.inl isPlace.1.symm
    · rw [racked.atTors i lt, Option.some.injEq, Place.mk.injEq] at isPlace
      exact Or.inr (Or.inl ⟨isPlace.1.symm, i, lt, rfl⟩)
    · rw [racked.atHosts j lt, Option.some.injEq, Place.mk.injEq] at isPlace
      exact Or.inr (Or.inr ⟨isPlace.1.symm, j, lt, rfl⟩)
  rcases depths src x isSrc with first | ⟨second, i, lt, rfl⟩ | ⟨third, i, lt, rfl⟩
  · omega
  · rcases depths dst y isDst with first' | ⟨_, j, lt', rfl⟩ | ⟨third', _⟩
    · omega
    · exact Or.inl ⟨second, i, lt, j, lt', rfl, rfl⟩
    · omega
  · rcases depths dst y isDst with first' | ⟨second', _⟩ | ⟨_, j, lt', rfl⟩
    · omega
    · omega
    · exact Or.inr ⟨third, i, lt, j, lt', rfl, rfl⟩

/-- Below the roots every node has an uplink. -/
theorem Racked.exists_uplink_of_low
    (racked : Racked (root :: roots) uplinkBw rackSize hostBw racks hosts g) {src : String}
    (isSrc : g.nodeMap src = some x) (low : 1 < g.depthOf x) :
    ∃ up top, g.toCluster.uplink x = .ok (up, top) := by
  rcases racked.cases_of_level isSrc isSrc rfl low with
    ⟨_, i, lt, _, _, rfl, _⟩ | ⟨_, i, lt, _, _, rfl, _⟩
  · rcases racked.exists_rackUplink lt isSrc with ⟨up, top, uplink, _⟩
    exact ⟨up, top, uplink⟩
  · rcases racked.exists_uplink lt isSrc with ⟨up, tor, uplink, _⟩
    exact ⟨up, tor, uplink⟩

/-- Below the roots there is a route between any two nodes of one layer, and there is one from every
node to itself. -/
theorem Racked.exists_routeMultipath
    (racked : Racked (root :: roots) uplinkBw rackSize hostBw racks (racks * rackSize) g)
    {src dst : String} {vsrc vdst : Option String} (isSrc : g.nodeMap src = some x)
    (isDst : g.nodeMap dst = some y) (level : g.depthOf x = g.depthOf y)
    (fits : 1 < g.depthOf x ∨ x = y ∧ ¬(vsrc.isSome ∧ vdst.isSome ∧ vsrc ≠ vdst))
    (loadBalancer : Option (ℕ → ℕ)) : ∃ route,
      g.toCluster.resolveRouteMultipath src dst vsrc vdst loadBalancer = .ok route := by
  have wired := racked.grown.wired
  have layered := racked.grown.layered
  have inRack : ∀ i < racks * rackSize, i / rackSize < racks :=
    fun i lt => Nat.div_lt_of_lt_mul (Nat.mul_comm _ _ ▸ lt)
  by_cases same : x = y
  · subst same
    refine Growing.exists_multipath_of_single wired isSrc isDst (Or.inr rfl) ?_
    by_cases virtual : vsrc.isSome ∧ vdst.isSome ∧ vsrc ≠ vdst
    · have low : 1 < g.depthOf x := fits.resolve_right fun normal => normal.2 virtual
      rcases racked.exists_uplink_of_low isSrc low with ⟨up, top, uplink⟩
      exact ⟨_, Growing.resolveRoute_of_uplink wired isSrc isDst uplink virtual⟩
    · exact ⟨_, Growing.resolveRoute_of_climb wired isSrc isDst rfl (fun both => virtual both.2)
        (Growing.climb_self _ _ _ _ _)⟩
  · have low : 1 < g.depthOf x := fits.resolve_right fun normal => same normal.1
    have apart : ¬(x = y ∧ vsrc.isSome ∧ vdst.isSome ∧ vsrc ≠ vdst) := fun both => same both.1
    rcases racked.cases_of_level isSrc isDst level low with
      ⟨depth, i, lt, j, lt', rfl, rfl⟩ | ⟨depth, i, lt, j, lt', rfl, rfl⟩
    · cases loadBalancer with
      | none =>
          rcases racked.exists_climb_racks lt lt' isSrc isDst [] [] with ⟨top, up, down, climb, _⟩
          rw [← depth] at climb
          exact ⟨_, Growing.resolveRoute_of_climb wired isSrc isDst level apart climb⟩
      | some hash =>
          rcases racked.exists_ascend_racks lt lt' isSrc isDst hash [] [] [] with
            ⟨top, path1, layer, below, ascent, met⟩
          rw [← depth] at ascent
          exact Growing.exists_multipath wired layered isSrc isDst level same ascent met
    · cases loadBalancer with
      | none =>
          rcases racked.exists_climb lt (inRack i lt) lt' (inRack j lt') isSrc isDst with
            ⟨top, up, down, climb, _⟩
          rw [← depth] at climb
          exact ⟨_, Growing.resolveRoute_of_climb wired isSrc isDst level apart climb⟩
      | some hash =>
          rcases racked.exists_ascend_hosts lt (inRack i lt) lt' (inRack j lt') isSrc
            isDst hash with
            ⟨top, path1, layer, below, ascent, met⟩
          rw [← depth] at ascent
          exact Growing.exists_multipath wired layered isSrc isDst level same ascent met

end Racks

theorem resolveRouteMultipath_correct :
    (∀ growths g, Runs.Reached (· = {}) Growing.LayeredStep growths g →
      ∀ src dst vsrc vdst loadBalancer route,
        g.toCluster.resolveRouteMultipath src dst vsrc vdst loadBalancer = .ok route →
          g.Routes src dst route) ∧
    (∀ nspines nracks rackSize hostBw rackUplinkPortBw g, 0 < nspines →
      buildTwolayerMultipathCluster nspines nracks rackSize hostBw rackUplinkPortBw = .ok g →
        ∀ src dst x y, g.nodeMap src = some x → g.nodeMap dst = some y →
          g.depthOf x = g.depthOf y → ∀ vsrc vdst,
            1 < g.depthOf x ∨ x = y ∧ ¬(vsrc.isSome ∧ vdst.isSome ∧ vsrc ≠ vdst) →
              ∀ loadBalancer, ∃ route,
                g.toCluster.resolveRouteMultipath src dst vsrc vdst loadBalancer = .ok route) ∧
    ∀ growths g, Runs.Reached (· = {}) Growing.LayeredStep growths g →
      (∀ ix, g.SingleParent ix) → ∀ src dst vsrc vdst loadBalancer route,
        g.toCluster.resolveRouteMultipath src dst vsrc vdst loadBalancer = .ok route ↔
          g.toCluster.resolveRoute src dst vsrc vdst = .ok route := by
  refine ⟨?_, ?_, ?_⟩
  · intro growths g reached src dst vsrc vdst loadBalancer route run
    rcases Growing.layered_of_reached reached with ⟨wired, layered⟩
    exact Growing.routes_of_resolveRouteMultipath wired layered run
  · intro nspines nracks rackSize hostBw rackUplinkPortBw g spine run src dst x y isSrc isDst level
      vsrc vdst fits loadBalancer
    rcases (Built.twoLayer spine run).racked with ⟨root, roots, _, _, _, racked⟩
    exact racked.exists_routeMultipath isSrc isDst level fits loadBalancer
  · intro growths g reached single src dst vsrc vdst loadBalancer route
    exact Growing.resolveRouteMultipath_iff (Growing.layered_of_reached reached).2 single

/-- Two racks of two hosts below two spines, and below one switch. -/
theorem resolveRouteMultipath_correct_racks :
    (∃ g route, buildTwolayerMultipathCluster 2 2 2 100 400 = .ok g ∧
      g.toCluster.resolveRouteMultipath (hostName 0) (hostName 3) none none (some id) = .ok route ∧
        g.Routes (hostName 0) (hostName 3) route) ∧
    ∃ g, buildArbitraryCluster 2 2 100 400 = .ok g ∧ ∀ route,
      g.toCluster.resolveRouteMultipath (hostName 0) (hostName 3) none none (some id) = .ok route ↔
        g.toCluster.resolveRoute (hostName 0) (hostName 3) none none = .ok route := by
  rcases resolveRouteMultipath_correct with ⟨sound, total, same⟩
  refine ⟨?_, ?_⟩
  · rcases buildTwolayerMultipathCluster_racked 2 2 2 100 400 with ⟨g, run, racked⟩
    rcases racked.grown.reached with ⟨growths, reached⟩
    rcases racked.depth_host (i := 0) (by decide) with ⟨x, atX, depth⟩
    rcases racked.depth_host (i := 3) (by decide) with ⟨y, atY, depth'⟩
    rcases total 2 2 2 100 400 g (by decide) run _ _ x y atX atY (depth.trans depth'.symm) none none
      (Or.inl (by omega)) (some id) with ⟨route, isRoute⟩
    exact ⟨g, route, run, isRoute, sound growths g reached _ _ _ _ _ route isRoute⟩
  · rcases buildArbitraryCluster_racked 2 2 100 400 with ⟨g, run, racked⟩
    rcases racked.grown.reached with ⟨growths, reached⟩
    exact ⟨g, run, same growths g reached racked.all_singleParent _ _ _ _ _⟩

/-- From one spine to another there is no way up. -/
theorem not_exists_route_spines :
    ¬∀ nspines nracks rackSize hostBw rackUplinkPortBw g, 0 < nspines →
      buildTwolayerMultipathCluster nspines nracks rackSize hostBw rackUplinkPortBw = .ok g →
        ∀ src dst x y, g.nodeMap src = some x → g.nodeMap dst = some y →
          g.depthOf x = g.depthOf y → ∀ vsrc vdst loadBalancer, ∃ route,
            g.toCluster.resolveRouteMultipath src dst vsrc vdst loadBalancer = .ok route := by
  intro total
  rcases buildTwolayerMultipathCluster_racked 2 1 1 100 100 with ⟨g, run, racked⟩
  have wired := racked.grown.wired
  have isSpine : ∀ i < 2, ∃ x node, g.nodeMap (spineName i) = some x ∧ g.nodes[x]? = some node ∧
      node.depth = 1 := by
    intro i lt
    rcases wired.exists_of_place (racked.atRoots (spineName i)
      (List.mem_map_of_mem (List.mem_range.mpr lt))) with ⟨x, node, known, isNode, _, depth, _⟩
    exact ⟨x, node, known, isNode, depth⟩
  rcases isSpine 0 (by decide) with ⟨x, node, atX, isNode, depth⟩
  rcases isSpine 1 (by decide) with ⟨y, node', atY, isNode', depth'⟩
  have apart : x ≠ y := by
    rintro rfl
    exact absurd (spineName_inj.mp (wired.ix_inj atX atY)) (by decide)
  rcases total 2 1 1 100 100 g (by decide) run _ _ x y atX atY
    (by simp [Growing.depthOf, isNode, isNode', depth, depth']) none none (some id) with
    ⟨route, found⟩
  simp only [Cluster.resolveRouteMultipath, bind_eq_ok, unwrap_eq_ok, assert_eq_ok] at found
  rcases found with ⟨x', isX, y', isY, first, isFirst, _, _, ⟨⟩, _, found⟩
  rw [show g.toCluster.nodeMap = g.nodeMap from rfl, atX, Option.some.injEq] at isX
  rw [show g.toCluster.nodeMap = g.nodeMap from rfl, atY, Option.some.injEq] at isY
  subst isX isY
  rw [show g.toCluster.nodes = g.nodes from rfl, isNode, Option.some.injEq] at isFirst
  subst isFirst
  rw [if_neg apart, depth] at found
  simp only [bind_eq_ok, assert_eq_ok, Cluster.ascend, Except.ok.injEq] at found
  rcases found with ⟨_, rfl, ⟨⟩, met, _⟩
  exact apart (List.mem_singleton.mp met)

end Phantora.Netsim
