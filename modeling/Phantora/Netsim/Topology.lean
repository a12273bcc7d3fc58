import Mathlib.Logic.Function.Basic
import Phantora.Lib.Runs
import Phantora.Lib.Walks
import Phantora.Netsim.Cluster

/-!
# Growing clusters

A cluster grows by nodes and by cables. A cable is a pair of links, one for each
direction, that are added together, so that a link and the one with the next or
the previous index are the two directions of one cable. Bandwidths may be of any
type here; routes do not depend on them.
-/

namespace Phantora.Netsim

open Outcome

namespace Node

/-- `Node::new`. -/
def new (name : String) (depth : ℕ) (isHost : Bool) : Node :=
  ⟨name, depth, isHost, [], []⟩

def isTor (node : Node) : Bool :=
  !node.isHost && "tor_".toList.isPrefixOf node.name.toList

end Node

/-- A directed link with its end points and its bandwidth. -/
structure Edge (β : Type) where
  source : NodeIx
  target : NodeIx
  bandwidth : β
deriving DecidableEq, Repr

/-- A cluster, with all the fields that building it sets. -/
structure Growing (β : Type) where
  nodes : List Node := []
  edges : List (Edge β) := []
  nodeMap : String → Option NodeIx := fun _ => none
  numHosts : ℕ := 0
  numRacks : ℕ := 0

namespace Growing

variable {β : Type}

/-- The cluster in which routes are searched. -/
def toCluster (g : Growing ℕ) : Cluster where
  nodes := g.nodes
  links := g.edges.map fun edge => ⟨edge.source, edge.target, edge.bandwidth⟩
  nodeMap := g.nodeMap

def addNode (g : Growing β) (node : Node) : Except Panic (Growing β) := do
  assert (g.nodeMap node.name = none) Panic.repeatedKey
  return {
    nodes := g.nodes ++ [node]
    edges := g.edges
    nodeMap := Function.update g.nodeMap node.name (some g.nodes.length)
    numHosts := if node.isHost then g.numHosts + 1 else g.numHosts
    numRacks := if node.isTor then g.numRacks + 1 else g.numRacks }

def addLinkByName (g : Growing β) (parent child : String) (bandwidth : β) :
    Except Panic (Growing β) := do
  let pnode ← unwrap (g.nodeMap parent) .unknownNode
  let cnode ← unwrap (g.nodeMap child) .unknownNode
  let l1 := g.edges.length
  let l2 := g.edges.length + 1
  return { g with
    edges := g.edges ++ [⟨pnode, cnode, bandwidth⟩, ⟨cnode, pnode, bandwidth⟩]
    nodes := (g.nodes.modify pnode fun node =>
      { node with children := node.children ++ [l1] }).modify
      cnode fun node => { node with parent := node.parent ++ [l2] } }

/-- The two ways in which a cluster grows. -/
inductive Growth (β : Type) where
  | addNode (name : String) (depth : ℕ) (isHost : Bool)
  | addLinkByName (parent child : String) (bandwidth : β)

def grow (g : Growing β) : Growth β → Except Panic (Growing β)
  | .addNode name depth isHost => g.addNode (Node.new name depth isHost)
  | .addLinkByName parent child bandwidth => g.addLinkByName parent child bandwidth

/-- The depth of a node of the cluster. -/
def depthOf (g : Growing β) (node : NodeIx) : ℕ :=
  (g.nodes[node]?.map Node.depth).getD 0

/-- A link is added from a node of some depth to one of the next. -/
def Growth.Layered (g : Growing β) : Growth β → Prop
  | .addNode _ _ _ => True
  | .addLinkByName parent child _ => ∀ pnode cnode, g.nodeMap parent = some pnode →
      g.nodeMap child = some cnode → g.depthOf cnode = g.depthOf pnode + 1

/-- A step of growth that keeps the layers. -/
def LayeredStep (g : Growing β) (growth : Growth β) (g' : Growing β) : Prop :=
  g.grow growth = .ok g' ∧ growth.Layered g

/-- The link joins two nodes. -/
def Joins (g : Growing β) (link : LinkIx) (x y : NodeIx) : Prop :=
  ∃ bandwidth, g.edges[link]? = some ⟨x, y, bandwidth⟩

/-- What growth keeps: names and nodes determine each other, links come in pairs, a node knows the
links that start at it, and its link to a child is the reverse of one of the child's to a parent. -/
structure Wired (g : Growing β) : Prop where
  named : ∀ name ix, g.nodeMap name = some ix ↔ ∃ node, g.nodes[ix]? = some node ∧ node.name = name
  even : g.edges.length % 2 = 0
  paired : ∀ link x y bandwidth, g.edges[link]? = some ⟨x, y, bandwidth⟩ →
    g.edges[Cluster.getReverseLink link]? = some ⟨y, x, bandwidth⟩
  ends : ∀ link x y, g.Joins link x y → x < g.nodes.length
  adjacent : ∀ ix node, g.nodes[ix]? = some node → ∀ link,
    link ∈ node.parent ∨ link ∈ node.children ↔ ∃ y, g.Joins link ix y
  below : ∀ ix node, g.nodes[ix]? = some node → ∀ link ∈ node.children, ∃ y child,
    g.Joins link ix y ∧ g.nodes[y]? = some child ∧ Cluster.getReverseLink link ∈ child.parent

/-- The links to the parents of a node go one layer up. -/
def Layered (g : Growing β) : Prop :=
  ∀ ix node, g.nodes[ix]? = some node → ∀ link ∈ node.parent, ∃ y, g.Joins link ix y ∧
    g.depthOf ix = g.depthOf y + 1

variable {g g' : Growing β}

theorem functional_joins : Walks.Functional g.Joins := by
  rintro link x y x' y' ⟨_, known⟩ ⟨_, known'⟩
  rw [known] at known'
  simp only [Option.some.injEq, Edge.mk.injEq] at known'
  exact ⟨known'.1, known'.2.1⟩

theorem xor_one_of_even {n : ℕ} (even : n % 2 = 0) : n ^^^ 1 = n + 1 := by
  have odd : (n ^^^ 1) % 2 = 1 ↔ ¬(n % 2 = 1 ↔ 1 % 2 = 1) := Nat.xor_mod_two_eq_one
  have half : (n ^^^ 1) / 2 = n / 2 := by
    rw [Nat.xor_div_two]
    exact Nat.xor_zero _
  omega

theorem reverse_reverse (link : LinkIx) :
    Cluster.getReverseLink (Cluster.getReverseLink link) = link := by
  unfold Cluster.getReverseLink
  rw [Nat.xor_assoc, Nat.xor_self, Nat.xor_zero]

theorem reverse_of_even {link : LinkIx} (even : link % 2 = 0) :
    Cluster.getReverseLink link = link + 1 :=
  xor_one_of_even even

theorem reverse_succ_of_even {link : LinkIx} (even : link % 2 = 0) :
    Cluster.getReverseLink (link + 1) = link := by
  rw [← reverse_of_even even, reverse_reverse]

theorem getElem?_concat_eq_some {α : Type} {items : List α} {item found : α} {ix : ℕ} :
    (items ++ [item])[ix]? = some found ↔
      items[ix]? = some found ∨ ix = items.length ∧ item = found := by
  rcases Nat.lt_trichotomy ix items.length with below | rfl | above
  · rw [List.getElem?_append_left below]
    simp [Nat.ne_of_lt below]
  · simp
  · have outside : (items ++ [item]).length ≤ ix := by
      rw [List.length_append]
      exact above
    rw [List.getElem?_eq_none outside, List.getElem?_eq_none (Nat.le_of_lt above)]
    simp [Nat.ne_of_gt above]

theorem addNode_eq_ok {node : Node} : g.addNode node = .ok g' ↔ g.nodeMap node.name = none ∧ g' = {
    nodes := g.nodes ++ [node]
    edges := g.edges
    nodeMap := Function.update g.nodeMap node.name (some g.nodes.length)
    numHosts := if node.isHost then g.numHosts + 1 else g.numHosts
    numRacks := if node.isTor then g.numRacks + 1 else g.numRacks } := by
  simp only [addNode, bind_eq_ok, assert_eq_ok, pure_eq_ok, exists_const]
  constructor
  · rintro ⟨fresh, rfl⟩
    exact ⟨fresh, rfl⟩
  · rintro ⟨fresh, rfl⟩
    exact ⟨fresh, rfl⟩

/-- What a new cable adds to a node. -/
def attach (pnode cnode : NodeIx) (link : LinkIx) (ix : NodeIx) (node : Node) : Node :=
  { node with
    children := if ix = pnode then node.children ++ [link] else node.children
    parent := if ix = cnode then node.parent ++ [link + 1] else node.parent }

/-- What a new cable makes of a cluster. -/
structure Cabled (g : Growing β) (pnode cnode : NodeIx) (bandwidth : β)
    (g' : Growing β) : Prop where
  nodes : ∀ ix, g'.nodes[ix]? = g.nodes[ix]?.map (attach pnode cnode g.edges.length ix)
  edges : g'.edges = g.edges ++ [⟨pnode, cnode, bandwidth⟩, ⟨cnode, pnode, bandwidth⟩]
  nodeMap : g'.nodeMap = g.nodeMap
  numHosts : g'.numHosts = g.numHosts
  numRacks : g'.numRacks = g.numRacks

theorem cabled_of_ok {parent child : String} {bandwidth : β}
    (run : g.addLinkByName parent child bandwidth = .ok g') : ∃ pnode cnode,
      g.nodeMap parent = some pnode ∧ g.nodeMap child = some cnode ∧
        Cabled g pnode cnode bandwidth g' := by
  simp only [addLinkByName, bind_eq_ok, unwrap_eq_ok, pure_eq_ok] at run
  rcases run with ⟨pnode, isParent, cnode, isChild, rfl⟩
  refine ⟨pnode, cnode, isParent, isChild, ?_, rfl, rfl, rfl, rfl⟩
  intro ix
  dsimp only
  rw [List.getElem?_modify, List.getElem?_modify]
  cases g.nodes[ix]? with
  | none => rfl
  | some node =>
      by_cases atParent : pnode = ix
      · by_cases atChild : cnode = ix
        · simp [attach, atParent, atChild]
        · simp [attach, atParent, atChild, Ne.symm atChild]
      · by_cases atChild : cnode = ix
        · simp [attach, atParent, atChild, Ne.symm atParent]
        · simp [attach, atParent, atChild, Ne.symm atParent, Ne.symm atChild]

theorem addLinkByName_total {parent child : String} {bandwidth : β} {pnode cnode : NodeIx}
    (isParent : g.nodeMap parent = some pnode) (isChild : g.nodeMap child = some cnode) :
    ∃ g', g.addLinkByName parent child bandwidth = .ok g' := by
  simp only [addLinkByName, bind_eq_ok, unwrap_eq_ok, pure_eq_ok]
  exact ⟨_, pnode, isParent, cnode, isChild, rfl⟩

theorem wired_empty : (({} : Growing β)).Wired where
  named := by simp
  even := rfl
  paired := by simp
  ends := by
    rintro _ _ _ ⟨_, known⟩
    simp at known
  adjacent := by simp
  below := by simp

theorem Wired.addNode {name : String} {depth : ℕ} {isHost : Bool} (wired : g.Wired)
    (run : g.addNode (Node.new name depth isHost) = .ok g') : g'.Wired := by
  rcases addNode_eq_ok.mp run with ⟨fresh, rfl⟩
  refine ⟨?_, wired.even, wired.paired, ?_, ?_, ?_⟩
  · intro other ix
    simp only [getElem?_concat_eq_some]
    by_cases same : other = name
    · subst same
      have absent : ¬∃ node, g.nodes[ix]? = some node ∧ node.name = other := by
        rw [← wired.named]
        simp only [Node.new] at fresh
        simp [fresh]
      constructor
      · intro known
        have isLast : g.nodes.length = ix := by simpa [Node.new] using known
        exact ⟨_, Or.inr ⟨isLast.symm, rfl⟩, rfl⟩
      · rintro ⟨node, old | ⟨isLast, rfl⟩, hasName⟩
        · exact absurd ⟨node, old, hasName⟩ absent
        · simp [Node.new, isLast]
    · rw [Function.update_of_ne (by simpa [Node.new] using same), wired.named]
      constructor
      · rintro ⟨node, old, hasName⟩
        exact ⟨node, Or.inl old, hasName⟩
      · rintro ⟨node, old | ⟨_, rfl⟩, hasName⟩
        · exact ⟨node, old, hasName⟩
        · exact absurd hasName.symm same
  · intro link x y joins
    rw [List.length_append]
    exact Nat.lt_of_lt_of_le (wired.ends link x y joins) (Nat.le_add_right _ _)
  · intro ix node known link
    rcases getElem?_concat_eq_some.mp known with old | ⟨rfl, rfl⟩
    · exact wired.adjacent ix node old link
    · refine iff_of_false (by simp [Node.new]) ?_
      rintro ⟨y, joins⟩
      exact Nat.lt_irrefl _ (wired.ends link _ y joins)
  · intro ix node known link mem
    rcases getElem?_concat_eq_some.mp known with old | ⟨rfl, rfl⟩
    · rcases wired.below ix node old link mem with ⟨y, child, joins, isChild, up⟩
      exact ⟨y, child, joins, getElem?_concat_eq_some.mpr (Or.inl isChild), up⟩
    · cases mem

theorem Cabled.length {pnode cnode : NodeIx} {bandwidth : β}
    (cabled : Cabled g pnode cnode bandwidth g') : g'.nodes.length = g.nodes.length := by
  have same : ∀ ix : ℕ, g'.nodes[ix]? = none ↔ g.nodes[ix]? = none := by
    intro ix
    rw [cabled.nodes, Option.map_eq_none_iff]
  simp only [List.getElem?_eq_none_iff] at same
  exact Nat.le_antisymm ((same _).mpr (Nat.le_refl _)) ((same _).mp (Nat.le_refl _))

/-- The links of a cluster with a new cable. -/
theorem Cabled.edge_iff {pnode cnode : NodeIx} {bandwidth : β}
    (cabled : Cabled g pnode cnode bandwidth g') {link : LinkIx} {edge : Edge β} :
    g'.edges[link]? = some edge ↔ g.edges[link]? = some edge ∨
      link = g.edges.length ∧ edge = ⟨pnode, cnode, bandwidth⟩ ∨
        link = g.edges.length + 1 ∧ edge = ⟨cnode, pnode, bandwidth⟩ := by
  have split : g'.edges = (g.edges ++ [⟨pnode, cnode, bandwidth⟩]) ++
      [⟨cnode, pnode, bandwidth⟩] := by
    rw [cabled.edges]
    simp
  rw [split, getElem?_concat_eq_some, getElem?_concat_eq_some, List.length_append,
    List.length_singleton, or_assoc]
  simp only [eq_comm]

theorem Cabled.joins_iff {pnode cnode : NodeIx} {bandwidth : β}
    (cabled : Cabled g pnode cnode bandwidth g') {link : LinkIx} {x y : NodeIx} :
    g'.Joins link x y ↔ g.Joins link x y ∨ link = g.edges.length ∧ x = pnode ∧ y = cnode ∨
      link = g.edges.length + 1 ∧ x = cnode ∧ y = pnode := by
  simp only [Joins, cabled.edge_iff, Edge.mk.injEq]
  constructor
  · rintro ⟨found, old | ⟨isLink, atX, atY, _⟩ | ⟨isLink, atX, atY, _⟩⟩
    · exact Or.inl ⟨found, old⟩
    · exact Or.inr (Or.inl ⟨isLink, atX, atY⟩)
    · exact Or.inr (Or.inr ⟨isLink, atX, atY⟩)
  · rintro (⟨found, old⟩ | ⟨isLink, atX, atY⟩ | ⟨isLink, atX, atY⟩)
    · exact ⟨found, Or.inl old⟩
    · exact ⟨bandwidth, Or.inr (Or.inl ⟨isLink, atX, atY, rfl⟩)⟩
    · exact ⟨bandwidth, Or.inr (Or.inr ⟨isLink, atX, atY, rfl⟩)⟩

theorem Wired.cabled {pnode cnode : NodeIx} {bandwidth : β} (wired : g.Wired)
    (isParent : pnode < g.nodes.length) (isChild : cnode < g.nodes.length)
    (cabled : Cabled g pnode cnode bandwidth g') : g'.Wired where
  named name ix := by
    rw [cabled.nodeMap, wired.named, cabled.nodes]
    constructor
    · rintro ⟨node, known, hasName⟩
      exact ⟨attach pnode cnode g.edges.length ix node, by rw [known]; rfl, hasName⟩
    · rintro ⟨node, known, hasName⟩
      rcases Option.map_eq_some_iff.mp known with ⟨before, isBefore, rfl⟩
      exact ⟨before, isBefore, hasName⟩
  even := by
    have even := wired.even
    rw [cabled.edges, List.length_append]
    simp only [List.length_cons, List.length_nil]
    omega
  paired link x y found known := by
    rw [cabled.edge_iff] at known ⊢
    rcases known with old | ⟨rfl, isEdge⟩ | ⟨rfl, isEdge⟩
    · exact Or.inl (wired.paired link x y found old)
    · rw [Edge.mk.injEq] at isEdge
      rcases isEdge with ⟨rfl, rfl, rfl⟩
      exact Or.inr (Or.inr ⟨reverse_of_even wired.even, rfl⟩)
    · rw [Edge.mk.injEq] at isEdge
      rcases isEdge with ⟨rfl, rfl, rfl⟩
      exact Or.inr (Or.inl ⟨reverse_succ_of_even wired.even, rfl⟩)
  ends link x y joins := by
    rw [cabled.length]
    rcases cabled.joins_iff.mp joins with old | ⟨_, rfl, _⟩ | ⟨_, rfl, _⟩
    · exact wired.ends link x y old
    · exact isParent
    · exact isChild
  adjacent ix node known link := by
    rw [cabled.nodes] at known
    rcases Option.map_eq_some_iff.mp known with ⟨before, isBefore, rfl⟩
    have old := wired.adjacent ix before isBefore link
    simp only [cabled.joins_iff, exists_or, ← old, attach]
    have atParent : (link ∈ if ix = pnode then before.children ++ [g.edges.length]
        else before.children) ↔ link ∈ before.children ∨ link = g.edges.length ∧ ix = pnode := by
      split
      · simp [*]
      · simp [*]
    have atChild : (link ∈ if ix = cnode then before.parent ++ [g.edges.length + 1]
        else before.parent) ↔ link ∈ before.parent ∨ link = g.edges.length + 1 ∧ ix = cnode := by
      split
      · simp [*]
      · simp [*]
    rw [atParent, atChild]
    simp only [exists_and_left, exists_eq, and_true]
    tauto
  below ix node known link mem := by
    rw [cabled.nodes] at known
    rcases Option.map_eq_some_iff.mp known with ⟨before, isBefore, rfl⟩
    have keeps : ∀ (y : NodeIx) (child : Node) up, g.nodes[y]? = some child → up ∈ child.parent →
        ∃ child', g'.nodes[y]? = some child' ∧ up ∈ child'.parent := by
      intro y child up isChild mem
      refine ⟨attach pnode cnode g.edges.length y child, by rw [cabled.nodes, isChild]; rfl, ?_⟩
      simp only [attach]
      split
      · exact List.mem_append_left _ mem
      · exact mem
    have old : link ∈ before.children → ∃ y child, g'.Joins link ix y ∧
        g'.nodes[y]? = some child ∧ Cluster.getReverseLink link ∈ child.parent := by
      intro mem
      rcases wired.below ix before isBefore link mem with ⟨y, child, joins, isChild, up⟩
      rcases keeps y child _ isChild up with ⟨child', isChild', up'⟩
      exact ⟨y, child', cabled.joins_iff.mpr (Or.inl joins), isChild', up'⟩
    simp only [attach] at mem
    split at mem
    · rename_i atParent
      rcases List.mem_append.mp mem with mem | mem
      · exact old mem
      · rw [List.mem_singleton.mp mem, reverse_of_even wired.even]
        refine ⟨cnode, attach pnode cnode g.edges.length cnode g.nodes[cnode], ?_, ?_, ?_⟩
        · exact cabled.joins_iff.mpr (Or.inr (Or.inl ⟨rfl, atParent, rfl⟩))
        · rw [cabled.nodes, List.getElem?_eq_getElem isChild]
          rfl
        · simp [attach]
    · exact old mem

theorem layered_empty : (({} : Growing β)).Layered := by
  intro ix node known
  simp at known

theorem Layered.addNode {name : String} {depth : ℕ} {isHost : Bool} (layered : g.Layered)
    (wired : g.Wired) (run : g.addNode (Node.new name depth isHost) = .ok g') : g'.Layered := by
  rcases addNode_eq_ok.mp run with ⟨fresh, rfl⟩
  have same : ∀ ix, ix < g.nodes.length →
      depthOf { g with nodes := g.nodes ++ [Node.new name depth isHost] } ix = g.depthOf ix := by
    intro ix inside
    simp only [depthOf, List.getElem?_append_left inside]
  intro ix node known link mem
  rcases getElem?_concat_eq_some.mp known with old | ⟨rfl, rfl⟩
  · rcases layered ix node old link mem with ⟨y, joins, deeper⟩
    have reverse : g.Joins (Cluster.getReverseLink link) y ix := by
      rcases joins with ⟨bandwidth, isEdge⟩
      exact ⟨bandwidth, wired.paired link ix y bandwidth isEdge⟩
    refine ⟨y, joins, ?_⟩
    have atX := same ix (wired.ends link ix y joins)
    have atY := same y (wired.ends _ y ix reverse)
    simp only [depthOf] at atX atY deeper ⊢
    rw [atX, atY]
    exact deeper
  · cases mem

theorem Cabled.depthOf_eq {pnode cnode : NodeIx} {bandwidth : β}
    (cabled : Cabled g pnode cnode bandwidth g') (ix : NodeIx) : g'.depthOf ix = g.depthOf ix := by
  rw [depthOf, cabled.nodes, Option.map_map]
  rfl

theorem Layered.cabled {pnode cnode : NodeIx} {bandwidth : β} (layered : g.Layered)
    (deeper : g.depthOf cnode = g.depthOf pnode + 1)
    (cabled : Cabled g pnode cnode bandwidth g') : g'.Layered := by
  intro ix node known link mem
  rw [cabled.nodes] at known
  rcases Option.map_eq_some_iff.mp known with ⟨before, isBefore, rfl⟩
  have old : link ∈ before.parent →
      ∃ y, g'.Joins link ix y ∧ g'.depthOf ix = g'.depthOf y + 1 := by
    intro mem
    rcases layered ix before isBefore link mem with ⟨y, joins, isDeeper⟩
    rw [cabled.depthOf_eq]
    exact ⟨y, cabled.joins_iff.mpr (Or.inl joins), by rw [cabled.depthOf_eq]; exact isDeeper⟩
  simp only [attach] at mem
  split at mem
  · rename_i atChild
    rcases List.mem_append.mp mem with mem | mem
    · exact old mem
    · refine ⟨pnode, cabled.joins_iff.mpr (Or.inr (Or.inr ?_)), ?_⟩
      · exact ⟨List.mem_singleton.mp mem, atChild, rfl⟩
      · rw [cabled.depthOf_eq, cabled.depthOf_eq, atChild]
        exact deeper
  · exact old mem

/-- A cluster grown layer by layer is wired and layered. -/
theorem LayeredStep.keeps {growth : Growth β} (wired : g.Wired) (layered : g.Layered)
    (step : g.LayeredStep growth g') : g'.Wired ∧ g'.Layered := by
  rcases step with ⟨run, fits⟩
  cases growth with
  | addNode name depth isHost => exact ⟨wired.addNode run, layered.addNode wired run⟩
  | addLinkByName parent child bandwidth =>
      rcases cabled_of_ok run with ⟨pnode, cnode, isParent, isChild, cabled⟩
      have inside : ∀ name ix, g.nodeMap name = some ix → ix < g.nodes.length := by
        intro name ix known
        rcases (wired.named name ix).mp known with ⟨node, isNode, _⟩
        exact (List.getElem?_eq_some_iff.mp isNode).1
      exact ⟨wired.cabled (inside _ _ isParent) (inside _ _ isChild) cabled,
        layered.cabled (fits pnode cnode isParent isChild) cabled⟩

theorem layered_of_reached {growths : List (Growth β)}
    (reached : Runs.Reached (· = {}) LayeredStep growths g) : g.Wired ∧ g.Layered := by
  refine reached.invariant (fun _ g => g.Wired ∧ g.Layered) ?_ ?_
  · rintro g rfl
    exact ⟨wired_empty, layered_empty⟩
  · intro _ _ _ _ keeps step
    exact step.keeps keeps.1 keeps.2

end Growing

/-- What a name stands for: the layer and kind of its node, and the names and bandwidths of its
links to its parents, in order. -/
structure Place (β : Type) where
  depth : ℕ
  isHost : Bool
  uplinks : List (String × β)
deriving DecidableEq, Repr

/-- The place with one more link to a parent. -/
def Place.below {β : Type} (parent : String) (bandwidth : β) (place : Place β) : Place β :=
  { place with uplinks := place.uplinks ++ [(parent, bandwidth)] }

namespace Growing

variable {β : Type} {g g' : Growing β}

def nameOf (g : Growing β) (ix : NodeIx) : String :=
  (g.nodes[ix]?.map Node.name).getD ""

/-- Where a link leads to, and its bandwidth. -/
def leadsTo (g : Growing β) (link : LinkIx) : Option (String × β) :=
  g.edges[link]?.map fun edge => (g.nameOf edge.target, edge.bandwidth)

def place (g : Growing β) (name : String) : Option (Place β) := do
  let ix ← g.nodeMap name
  let node ← g.nodes[ix]?
  return ⟨node.depth, node.isHost, node.parent.filterMap g.leadsTo⟩

/-- The nodes as they were when they were added. -/
def kinds (g : Growing β) : List Node :=
  g.nodes.map fun node => Node.new node.name node.depth node.isHost

theorem Wired.place_eq {name : String} {ix : NodeIx} {node : Node} (wired : g.Wired)
    (known : g.nodes[ix]? = some node) (hasName : node.name = name) :
    g.place name = some ⟨node.depth, node.isHost, node.parent.filterMap g.leadsTo⟩ := by
  rw [place, (wired.named name ix).mpr ⟨node, known, hasName⟩]
  simp [known]

theorem Wired.place_eq_none {name : String} (wired : g.Wired) :
    g.place name = none ↔ g.nodeMap name = none := by
  cases known : g.nodeMap name with
  | none => simp [place, known]
  | some ix =>
      rcases (wired.named name ix).mp known with ⟨node, isNode, hasName⟩
      simp [wired.place_eq isNode hasName]

theorem Wired.exists_of_place {name : String} {found : Place β} (wired : g.Wired)
    (isPlace : g.place name = some found) : ∃ ix node, g.nodeMap name = some ix ∧
      g.nodes[ix]? = some node ∧ node.name = name ∧ node.depth = found.depth ∧
        node.isHost = found.isHost ∧ node.parent.filterMap g.leadsTo = found.uplinks := by
  cases known : g.nodeMap name with
  | none => simp [place, known] at isPlace
  | some ix =>
      rcases (wired.named name ix).mp known with ⟨node, isNode, hasName⟩
      rw [wired.place_eq isNode hasName, Option.some.injEq] at isPlace
      exact ⟨ix, node, rfl, isNode, hasName, by rw [← isPlace], by rw [← isPlace],
        by rw [← isPlace]⟩

theorem Wired.joins_target {link : LinkIx} {x y : NodeIx} (wired : g.Wired)
    (joins : g.Joins link x y) : y < g.nodes.length := by
  rcases joins with ⟨bandwidth, isEdge⟩
  exact wired.ends _ y x ⟨bandwidth, wired.paired link x y bandwidth isEdge⟩

theorem Wired.place_addNode {name : String} {depth : ℕ} {isHost : Bool} (wired : g.Wired)
    (run : g.addNode (Node.new name depth isHost) = .ok g') :
    g'.place = Function.update g.place name (some ⟨depth, isHost, []⟩) := by
  have wired' := wired.addNode run
  rcases addNode_eq_ok.mp run with ⟨fresh, rfl⟩
  funext other
  by_cases same : other = name
  · subst same
    have isNew : (g.nodes ++ [Node.new other depth isHost])[g.nodes.length]? =
        some (Node.new other depth isHost) := by simp
    have hasName : (Node.new other depth isHost).name = other := rfl
    rw [Function.update_self, wired'.place_eq isNew hasName]
    rfl
  · rw [Function.update_of_ne same]
    cases known : g.nodeMap other with
    | none =>
        rw [wired.place_eq_none.mpr known, wired'.place_eq_none]
        dsimp only
        rw [Function.update_of_ne (by simpa [Node.new] using same), known]
    | some ix =>
        rcases (wired.named other ix).mp known with ⟨node, isNode, hasName⟩
        rw [wired.place_eq isNode hasName,
          wired'.place_eq (getElem?_concat_eq_some.mpr (Or.inl isNode)) hasName]
        congr 2
        apply List.filterMap_congr
        intro link mem
        rcases (wired.adjacent ix node isNode link).mp (Or.inl mem) with ⟨y, joins⟩
        have inside := wired.joins_target joins
        rcases joins with ⟨bandwidth, isEdge⟩
        simp only [leadsTo, isEdge, Option.map_some, nameOf, List.getElem?_append_left inside]

/-- What a cable does not change of the nodes. -/
theorem Cabled.map_eq {α : Type} {f : Node → α} {pnode cnode : NodeIx} {bandwidth : β}
    (cabled : Cabled g pnode cnode bandwidth g')
    (keeps : ∀ ix node, f (attach pnode cnode g.edges.length ix node) = f node) :
    g'.nodes.map f = g.nodes.map f := by
  apply List.ext_getElem?
  intro ix
  rw [List.getElem?_map, List.getElem?_map, cabled.nodes, Option.map_map]
  congr 1
  funext node
  exact keeps ix node

theorem Cabled.nameOf_eq {pnode cnode : NodeIx} {bandwidth : β}
    (cabled : Cabled g pnode cnode bandwidth g') (ix : NodeIx) : g'.nameOf ix = g.nameOf ix := by
  rw [nameOf, cabled.nodes, Option.map_map]
  rfl

theorem Wired.place_cabled {parent child : String} {pnode cnode : NodeIx} {bandwidth : β}
    (wired : g.Wired) (wired' : g'.Wired) (isParent : g.nodeMap parent = some pnode)
    (isChild : g.nodeMap child = some cnode) (cabled : Cabled g pnode cnode bandwidth g') :
    g'.place = Function.update g.place child
      ((g.place child).map (Place.below parent bandwidth)) := by
  funext other
  have old : ∀ (ix : NodeIx) (node : Node), g.nodes[ix]? = some node →
      node.parent.filterMap g'.leadsTo = node.parent.filterMap g.leadsTo := by
    intro ix node isNode
    apply List.filterMap_congr
    intro link mem
    rcases (wired.adjacent ix node isNode link).mp (Or.inl mem) with ⟨y, found, isEdge⟩
    simp only [leadsTo, isEdge, cabled.edge_iff.mpr (Or.inl isEdge), Option.map_some,
      cabled.nameOf_eq]
  cases known : g.nodeMap other with
  | none =>
      have fresh : other ≠ child := by
        rintro rfl
        rw [isChild] at known
        cases known
      rw [Function.update_of_ne fresh, wired.place_eq_none.mpr known, wired'.place_eq_none,
        cabled.nodeMap, known]
  | some ix =>
      rcases (wired.named other ix).mp known with ⟨node, isNode, hasName⟩
      have isNode' : g'.nodes[ix]? = some (attach pnode cnode g.edges.length ix node) := by
        rw [cabled.nodes, isNode]
        rfl
      rw [wired'.place_eq isNode' hasName]
      by_cases same : other = child
      · subst same
        have atChild : ix = cnode := Option.some.inj (known.symm.trans isChild)
        have isNew : g'.leadsTo (g.edges.length + 1) = some (parent, bandwidth) := by
          rw [leadsTo, cabled.edge_iff.mpr (Or.inr (Or.inr ⟨rfl, rfl⟩)), Option.map_some,
            cabled.nameOf_eq]
          rcases (wired.named parent pnode).mp isParent with ⟨top, isTop, topName⟩
          simp [nameOf, isTop, topName]
        rw [Function.update_self, wired.place_eq isNode hasName]
        simp [attach, atChild, Place.below, List.filterMap_append, old ix node isNode, isNew]
      · have elsewhere : ix ≠ cnode := by
          rintro rfl
          rcases (wired.named child ix).mp isChild with ⟨node', isNode'', hasName'⟩
          rw [isNode, Option.some.injEq] at isNode''
          subst isNode''
          exact same (hasName.symm.trans hasName')
        rw [Function.update_of_ne same, wired.place_eq isNode hasName]
        simp [attach, elsewhere, old ix node isNode]

/-- A cable of the given bandwidth is all that one node is attached to, and leads to the other. -/
def AttachedOnly (g : Growing β) (name parent : String) (bandwidth : β) : Prop :=
  ∃ child top up, g.nodeMap name = some child ∧ g.nodeMap parent = some top ∧
    g.edges[up]? = some ⟨child, top, bandwidth⟩ ∧
      g.edges[Cluster.getReverseLink up]? = some ⟨top, child, bandwidth⟩ ∧
        ∀ link x y, g.Joins link x y → x = child ∨ y = child →
          link = up ∨ link = Cluster.getReverseLink up

/-- A node with one uplink has one link to a parent. -/
theorem Wired.parent_eq_singleton {ix : NodeIx} {node : Node} {parent : String} {bandwidth : β}
    (wired : g.Wired) (known : g.nodes[ix]? = some node)
    (uplinks : node.parent.filterMap g.leadsTo = [(parent, bandwidth)]) : ∃ up y,
      node.parent = [up] ∧ g.edges[up]? = some ⟨ix, y, bandwidth⟩ ∧ g.nameOf y = parent := by
  have leads : ∀ link ∈ node.parent, ∃ y found, g.edges[link]? = some ⟨ix, y, found⟩ ∧
      g.leadsTo link = some (g.nameOf y, found) := by
    intro link mem
    rcases (wired.adjacent ix node known link).mp (Or.inl mem) with ⟨y, found, isEdge⟩
    exact ⟨y, found, isEdge, by rw [leadsTo, isEdge]; rfl⟩
  cases isParent : node.parent with
  | nil => simp [isParent] at uplinks
  | cons up rest =>
      rcases leads up (isParent ▸ List.mem_cons_self) with ⟨y, found, isEdge, isLed⟩
      rw [isParent, List.filterMap_cons_some isLed, List.cons.injEq, Prod.mk.injEq] at uplinks
      rcases uplinks with ⟨⟨name, rfl⟩, none⟩
      cases rest with
      | nil => exact ⟨up, y, rfl, isEdge, name⟩
      | cons other rest =>
          rcases leads other (isParent ▸ by simp) with ⟨_, _, _, isLed'⟩
          rw [List.filterMap_cons_some isLed'] at none
          cases none

/-- What building keeps: the cluster is grown layer by layer, and its hosts and
racks are counted. -/
structure Grown (g : Growing β) : Prop where
  reached : ∃ growths, Runs.Reached (· = {}) LayeredStep growths g
  numHosts : g.numHosts = g.kinds.countP Node.isHost
  numRacks : g.numRacks = g.kinds.countP Node.isTor

theorem Grown.wired (grown : g.Grown) : g.Wired :=
  let ⟨_, reached⟩ := grown.reached
  (layered_of_reached reached).1

theorem Grown.layered (grown : g.Grown) : g.Layered :=
  let ⟨_, reached⟩ := grown.reached
  (layered_of_reached reached).2

theorem grown_empty : (({} : Growing β)).Grown :=
  ⟨⟨[], .start rfl⟩, rfl, rfl⟩

/-- A node with a new name can be added. -/
theorem Grown.exists_addNode {name : String} (grown : g.Grown) (fresh : g.place name = none)
    (depth : ℕ) (isHost : Bool) : ∃ g', g.addNode (Node.new name depth isHost) = .ok g' ∧
      g'.Grown ∧ g'.place = Function.update g.place name (some ⟨depth, isHost, []⟩) ∧
        g'.kinds = g.kinds ++ [Node.new name depth isHost] := by
  have unknown : g.nodeMap (Node.new name depth isHost).name = none :=
    grown.wired.place_eq_none.mp fresh
  have run := addNode_eq_ok.mpr ⟨unknown, rfl⟩
  have kinds : (g.nodes ++ [Node.new name depth isHost]).map
      (fun node => Node.new node.name node.depth node.isHost) =
        g.kinds ++ [Node.new name depth isHost] := by
    rw [List.map_append]
    rfl
  rcases grown.reached with ⟨growths, reached⟩
  have step : g.LayeredStep (.addNode name depth isHost) _ := ⟨run, trivial⟩
  refine ⟨_, run, ⟨⟨_, reached.step step⟩, ?_, ?_⟩,
    grown.wired.place_addNode run, kinds⟩
  · dsimp only [Growing.kinds]
    rw [kinds, List.countP_append, List.countP_singleton, grown.numHosts]
    split
    · rfl
    · rfl
  · dsimp only [Growing.kinds]
    rw [kinds, List.countP_append, List.countP_singleton, grown.numRacks]
    split
    · rfl
    · rfl

/-- A cable can be added between two nodes of successive layers. -/
theorem Grown.exists_addLinkByName {parent child : String} {above below : Place β}
    (grown : g.Grown) (isParent : g.place parent = some above)
    (isChild : g.place child = some below) (deeper : below.depth = above.depth + 1)
    (bandwidth : β) : ∃ g', g.addLinkByName parent child bandwidth = .ok g' ∧ g'.Grown ∧
      g'.place = Function.update g.place child (some (below.below parent bandwidth)) ∧
        g'.kinds = g.kinds := by
  rcases grown.wired.exists_of_place isParent with ⟨pnode, top, atParent, isTop, _, topDepth, _⟩
  rcases grown.wired.exists_of_place isChild with ⟨cnode, low, atChild, isLow, _, lowDepth, _⟩
  have total : ∃ g', g.addLinkByName parent child bandwidth = .ok g' :=
    addLinkByName_total atParent atChild
  rcases total with ⟨g', run⟩
  rcases cabled_of_ok run with ⟨pnode', cnode', atParent', atChild', cabled⟩
  rw [atParent, Option.some.injEq] at atParent'
  rw [atChild, Option.some.injEq] at atChild'
  subst atParent' atChild'
  have wired' := grown.wired.cabled (List.getElem?_eq_some_iff.mp isTop).1
    (List.getElem?_eq_some_iff.mp isLow).1 cabled
  have deeper' : g.depthOf cnode = g.depthOf pnode + 1 := by
    simp [depthOf, isTop, isLow, topDepth, lowDepth, deeper]
  have kinds : g'.kinds = g.kinds := cabled.map_eq fun _ _ => rfl
  rcases grown.reached with ⟨growths, reached⟩
  have step : g.LayeredStep (.addLinkByName parent child bandwidth) g' := by
    refine ⟨run, fun pnode' cnode' atParent' atChild' => ?_⟩
    rw [atParent, Option.some.injEq] at atParent'
    rw [atChild, Option.some.injEq] at atChild'
    subst atParent' atChild'
    exact deeper'
  refine ⟨g', run, ⟨⟨_, reached.step step⟩, ?_, ?_⟩, ?_, kinds⟩
  · rw [cabled.numHosts, kinds, grown.numHosts]
  · rw [cabled.numRacks, kinds, grown.numRacks]
  · rw [grown.wired.place_cabled wired' atParent atChild cabled, isChild]
    rfl

end Growing

end Phantora.Netsim
