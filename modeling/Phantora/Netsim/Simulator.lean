import Mathlib.Data.List.MinMax
import Phantora.Lib.PriorityQueue
import Phantora.Netsim.FlowState

/-!
# The flow-level network simulator

The network state with its buffered, running and retired flows and its link
index, the allocation of rates by progressive filling, the event loop and the
rollback to a time in the past.
-/

namespace Phantora.Netsim

open Outcome

/-- A timer that fires once. -/
structure OnceTimer where
  nextAlert : Timestamp
  token : Option Token
  timerId : Option TimerId
deriving DecidableEq, Repr

structure SimulatorSetting where
  loopbackSpeed : ℕ := 400 * 1000000000
  fairness : FairnessModel := .perFlowMaxMin
deriving DecidableEq, Repr

/-- The state of the network. -/
structure NetState where
  fairness : FairnessModel := .perFlowMaxMin
  arena : Arena := fun _ => default
  nextRef : FlowRef := 0
  /-- Flows that start later, keyed by their identifier, the earliest start first. -/
  flowBufs : PriorityQueue ℕ FlowRef := .empty
  runningFlows : List FlowRef := []
  linkFlows : List (LinkIx × FlowSet) := []
  loopbackFlows : List FlowRef := []
  /-- Completed flows, the last one completed first. -/
  retiredFlows : List FlowRef := []

namespace NetState

/-- The buffered flow that starts first. -/
def peekBuffered (platform : Platform) (state : NetState) : Option FlowRef :=
  (state.flowBufs.peek (platform.order 0) fun ref => (state.arena ref).ts).map Prod.snd

def updateFlowStartTs (state : NetState) (flow : Flow) (newTs : Timestamp) :
    Except Panic NetState := do
  let entry := state.flowBufs.entries.find? fun entry => entry.1 = flow.id
  let (_, ref) ← unwrap entry .flowNotBuffered
  return { state with
    arena := state.arena.modify ref fun f => { f with ts := max f.ts newTs } }

/-- `entry(l).or_insert_with(|| FlowSet::new(fairness)).push(fs)`. -/
def pushLink (fairness : FairnessModel) (arena : Arena) (ref : FlowRef) (link : LinkIx) :
    List (LinkIx × FlowSet) → Except Panic (List (LinkIx × FlowSet))
  | [] => do
      let set ← (FlowSet.new fairness).push arena ref
      return [(link, set)]
  | (other, set) :: rest =>
      if other = link then do
        let set ← set.push arena ref
        return (other, set) :: rest
      else do
        let rest ← pushLink fairness arena ref link rest
        return (other, set) :: rest

/-- Start a flow: it is running and indexed under each link of its route. -/
def emitFlow (state : NetState) (ref : FlowRef) : Except Panic NetState := do
  let linkFlows ← (state.arena ref).route.path.foldlM
    (fun linkFlows link => pushLink state.fairness state.arena ref link linkFlows)
    state.linkFlows
  return { state with
    runningFlows := state.runningFlows ++ [ref]
    linkFlows := linkFlows
    loopbackFlows :=
      if (state.arena ref).isLoopback then state.loopbackFlows ++ [ref] else state.loopbackFlows }

/-- Add a flow to the buffer, or start it immediately. -/
def pushFlow (state : NetState) (ref : FlowRef) (simTs : Timestamp) : Except Panic NetState :=
  if (state.arena ref).ts > simTs then
    .ok { state with flowBufs := state.flowBufs.push (state.arena ref).flow.id ref }
  else
    state.emitFlow ref

def mapHostname (hostMapping : Option (String → Option String)) (name : String) :
    Except Panic String :=
  match hostMapping with
  | none => .ok name
  | some mapping => unwrap (mapping name) .unknownHostname

/-- Resolve the route of a flow and give it a state in the arena. -/
def addFlow (state : NetState) (record : TraceRecord) (cluster : Cluster) (simTs : Timestamp)
    (hostMapping : Option (String → Option String)) : Except Panic NetState := do
  let src ← mapHostname hostMapping record.flow.src
  let dst ← mapHostname hostMapping record.flow.dst
  let flow := { record.flow with src := src, dst := dst }
  let route ← cluster.resolveRoute flow.src flow.dst flow.vsrc flow.vdst
  let ref := state.nextRef
  let state := { state with
    arena := Function.update state.arena ref
      { ts := record.ts, flow := flow, maxRate := u64Max, route := route }
    nextRef := ref + 1 }
  state.pushFlow ref simTs

/-- Start the buffered flows whose time has come. -/
def emitReadyFlows (platform : Platform) (simTs : Timestamp) :
    ℕ → NetState → Except Panic NetState
  | 0, _ => .error .outOfFuel
  | fuel + 1, state =>
      match state.flowBufs.peek (platform.order 0) fun ref => (state.arena ref).ts with
      | none => .ok state
      | some (id, ref) =>
          if simTs < (state.arena ref).ts then .ok state
          else do
            assert (simTs = (state.arena ref).ts) Panic.lateReadyFlow
            let state := { state with flowBufs := state.flowBufs.erase id }
            let state ← state.emitFlow ref
            emitReadyFlows platform simTs fuel state

/-- Apply `retain` to every flow set of the index and drop the empty ones. -/
def retainLinks (keep : FlowRef → Except Panic Bool) (linkFlows : List (LinkIx × FlowSet)) :
    Except Panic (List (LinkIx × FlowSet)) := do
  let kept ← linkFlows.mapM fun entry => do
    let set ← entry.2.retain keep
    return (entry.1, set)
  return kept.filter fun entry => !entry.2.isEmpty

/-- Move one running flow from `simTs` on by `tsInc`, and retire it if that completes it. -/
def advanceFlow (simTs : Timestamp) (tsInc : Duration) (acc : NetState × List TraceRecord)
    (ref : FlowRef) : Except Panic (NetState × List TraceRecord) := do
  let (state, compFlows) := acc
  let f := state.arena ref
  assert (f.speed ≤ f.maxRate + 10) Panic.speedOverMaxRate
  let f := f.advance simTs tsInc
  let complete ← f.completed
  if complete then
    return ({ state with
      arena := Function.update state.arena ref (f.retire (simTs + tsInc))
      retiredFlows := ref :: state.retiredFlows },
      compFlows ++ [⟨f.ts, f.flow, some (simTs + tsInc - f.ts)⟩])
  else
    return ({ state with arena := Function.update state.arena ref f }, compFlows)

def completeFlows (state : NetState) (simTs : Timestamp) (tsInc : Duration) :
    Except Panic (NetState × List TraceRecord) := do
  let (state, compFlows) ← state.runningFlows.foldlM (advanceFlow simTs tsInc) (state, [])
  let unfinished : FlowRef → Except Panic Bool := fun ref => do
    let complete ← (state.arena ref).completed
    return !complete
  let runningFlows ← retainM unfinished state.runningFlows
  let linkFlows ← retainLinks unfinished state.linkFlows
  let loopbackFlows ← retainM unfinished state.loopbackFlows
  return ({ state with
    runningFlows := runningFlows
    linkFlows := linkFlows
    loopbackFlows := loopbackFlows }, compFlows)

/-- Pop the retired flows that ended after `pastTs`, the last one first. -/
def reviveRetired (arena : Arena) (pastTs : Timestamp) :
    List FlowRef → Except Panic (List FlowRef × List FlowRef)
  | [] => .ok ([], [])
  | ref :: rest => do
      let last ← unwrap (arena ref).speedHistory.head? .emptySpeedHistory
      assert (last.speed = 0) Panic.retiredStillMoving
      if pastTs < last.start / 1000 * 1000 then
        let (revived, kept) ← reviveRetired arena pastTs rest
        return (ref :: revived, kept)
      else
        return ([], ref :: rest)

/-- Unwind the speed history to `pastTs`: the bytes sent since, and the entries kept. -/
def unwindHistory (pastTs : Timestamp) :
    Timestamp → ℚ → List SpeedHistoryEntry → ℚ × List SpeedHistoryEntry
  | _, reverted, [] => (reverted, [])
  | lastTs, reverted, entry :: rest =>
      let reverted := reverted +
        ((lastTs - max entry.start pastTs : ℕ) : ℚ) * entry.speed / (8 * 1000000000)
      if entry.start < pastTs then (reverted, entry :: rest)
      else unwindHistory pastTs entry.start reverted rest

/-- Undo what one flow did after `pastTs`. -/
def revertFlow (simTs pastTs : Timestamp) (f : FlowState) : Except Panic FlowState := do
  let (reverted, speedHistory) := unwindHistory pastTs simTs 0 f.speedHistory
  assert (reverted > f.bytesSent → reverted - f.bytesSent < f.bytesSent / 1000000)
    Panic.revertedTooMuch
  let reverted := if reverted > f.bytesSent then f.bytesSent else reverted
  let bytesSent := f.bytesSent - reverted
  if pastTs ≤ f.ts then
    assert (|bytesSent| < 1 / 10000000000 ∨ bytesSent / (bytesSent + reverted) < 1 / 1000000)
      Panic.sentBeforeStart
    assert (speedHistory = []) Panic.historyBeforeStart
    return { f with bytesSent := 0, speedHistory := speedHistory }
  else
    return { f with bytesSent := bytesSent, speedHistory := speedHistory }

/-- Roll the network back; returns the flows whose completion is undone. -/
def rollbackTo (state : NetState) (simTs pastTs : Timestamp) :
    Except Panic (NetState × List FlowRef) := do
  let (retiredToRunning, retiredFlows) ← reviveRetired state.arena pastTs state.retiredFlows
  let state := { state with retiredFlows := retiredFlows }
  let state ← retiredToRunning.foldlM emitFlow state
  let arena ← state.runningFlows.foldlM (fun arena ref => do
    let f ← revertFlow simTs pastTs (arena ref)
    return Function.update arena ref f) state.arena
  let started : FlowRef → Bool := fun ref => pastTs > (arena ref).ts
  let revivedFlows := state.runningFlows.filter fun ref => !started ref
  let linkFlows ← retainLinks (fun ref => .ok (started ref)) state.linkFlows
  let state := { state with
    arena := arena
    runningFlows := state.runningFlows.filter started
    linkFlows := linkFlows
    loopbackFlows := state.loopbackFlows.filter started }
  let state ← revivedFlows.foldlM (fun state ref => state.pushFlow ref pastTs) state
  return (state, retiredToRunning)

end NetState

namespace Filling

/-- Record an increase that a link allows to a flow in the bound of the flow. -/
def capFlow (inc : ℕ) (f : FlowState) : FlowState :=
  { f with speedBound := min f.speedBound (f.speed + inc) }

/-- The common increase that one link allows to its flows, which it records in their bounds. -/
def calcDeltaPerFlow (totalBw : ℕ) (flows : List FlowRef) (arena : Arena) :
    Except Panic (ℕ × Arena) := do
  assert (∀ ref ∈ flows, (arena ref).speed ≤ (arena ref).maxRate + 10) Panic.speedOverMaxRate
  let numActive := flows.countP fun ref => !(arena ref).converged
  let consumedBw := (flows.map fun ref => (arena ref).speed).sum
  let minInc := (flows.map fun ref =>
    if (arena ref).converged then (arena ref).maxRate - (arena ref).speed else f64Max).foldl
    min f64Max
  let bwInc :=
    if totalBw < asU64 consumedBw then 0
    else divBandwidth (totalBw - asU64 consumedBw) numActive
  let bwInc := min bwInc (asU64 minInc)
  return (bwInc, arena.forEach flows (capFlow bwInc))

/-- The flows of a group that are still filling. -/
def numActiveFlows (arena : Arena) (flows : List FlowRef) : ℕ :=
  flows.countP fun ref => !(arena ref).converged

/-- Record the increase of one group in the bounds of its flows. -/
def boundGroup (bwIncPerObject : ℕ) (acc : ℕ × Arena) (flows : List FlowRef) : ℕ × Arena :=
  let (minInc, arena) := acc
  if numActiveFlows arena flows = 0 then (minInc, arena)
  else
    let speedInc := divBandwidth bwIncPerObject (numActiveFlows arena flows)
    (min minInc speedInc, arena.forEach flows (capFlow speedInc))

/-- `calc_delta_on_group!`: every group with an active flow gets the same share of the link. -/
def calcDeltaOnGroup (totalBw : ℕ) (groups : List (List FlowRef)) (arena : Arena) :
    Except Panic (ℕ × Arena) := do
  let flows := groups.flatten
  let active := flows.filter fun ref => !(arena ref).converged
  assert (∀ ref ∈ active, (arena ref).speed < (arena ref).maxRate + 10) Panic.speedOverMaxRate
  let consumedBw := (flows.map fun ref => (arena ref).speed).sum
  let minIncToMaxRate := (active.map fun ref => (arena ref).maxRate - (arena ref).speed).foldl
    min f64Max
  let numActiveObjects := groups.countP fun group => 0 < numActiveFlows arena group
  assert (numActiveObjects ≠ 0) Panic.noActiveObject
  let bwIncPerObject :=
    if totalBw < asU64 consumedBw then 0
    else divBandwidth (totalBw - asU64 consumedBw) numActiveObjects
  let minInc := min bwIncPerObject (asU64 minIncToMaxRate)
  return groups.foldl (boundGroup bwIncPerObject) (minInc, arena)

def calcDeltaGroupped (totalBw : ℕ) (flows : FlowSet) (arena : Arena) :
    Except Panic (ℕ × Arena) :=
  match flows with
  | .groupByVmPair groups => calcDeltaOnGroup totalBw (groups.map Prod.snd) arena
  | .groupByTenant groups => calcDeltaOnGroup totalBw (groups.map Prod.snd) arena
  | .flat _ => .error .flowsNotGrouped

def calcDelta (fairness : FairnessModel) (bandwidth : ℕ) (flows : FlowSet) (arena : Arena) :
    Except Panic (ℕ × Arena) :=
  match fairness with
  | .perFlowMaxMin => calcDeltaPerFlow bandwidth flows.iter arena
  | .perVmPairMaxMin => calcDeltaGroupped bandwidth flows arena
  | .tenantFlowMaxMin => calcDeltaGroupped bandwidth flows arena

/-- The increases allowed by the links that still have a flow to fill. -/
def linkDeltas (cluster : Cluster) (fairness : FairnessModel) (acc : List ℕ × Arena)
    (entry : LinkIx × FlowSet) : Except Panic (List ℕ × Arena) := do
  let (deltas, arena) := acc
  if entry.2.iter.any fun ref => !(arena ref).converged then
    assert (¬entry.2.isEmpty) Panic.emptyFlowSet
    let (delta, arena) ← calcDelta fairness (cluster.bandwidth entry.1) entry.2 arena
    return (deltas ++ [delta], arena)
  else
    return (deltas, arena)

/-- Raise one flow by the common increase and stop it at its bound. -/
def raiseFlow (speedInc : ℚ) (f : FlowState) : FlowState :=
  if f.converged then f
  else if f.speedBound ≤ f.speed + speedInc + 1 / 10000000000 then
    { f with speed := f.speed + speedInc, converged := true }
  else
    { f with speed := f.speed + speedInc, speedBound := f.maxRate }

/-- Reset a flow before filling; a loopback flow gets its speed at once. -/
def resetFlow (loopbackSpeed : ℕ) (f : FlowState) : FlowState :=
  if f.isLoopback then
    { f with speedBound := loopbackSpeed, converged := true, speed := loopbackSpeed }
  else
    { f with speedBound := f.maxRate, converged := false, speed := 0 }

/-- One round of filling. -/
def fillRound (cluster : Cluster) (fairness : FairnessModel) (running : List FlowRef)
    (linkFlows : List (LinkIx × FlowSet)) (arena : Arena) : Except Panic Arena := do
  let (deltas, arena) ← linkFlows.foldlM (linkDeltas cluster fairness) ([], arena)
  let bw ← unwrap deltas.min? Panic.notConverged
  return arena.forEach running (raiseFlow bw)

/-- Fill until every running flow has converged. -/
def fillLoop (cluster : Cluster) (fairness : FairnessModel) (running : List FlowRef)
    (linkFlows : List (LinkIx × FlowSet)) : ℕ → Arena → Except Panic Arena
  | 0, _ => .error .outOfFuel
  | fuel + 1, arena =>
      if (running.countP fun ref => (arena ref).converged) < running.length then do
        let arena ← fillRound cluster fairness running linkFlows arena
        fillLoop cluster fairness running linkFlows fuel arena
      else .ok arena

end Filling

/-- The simulator. -/
structure Simulator where
  cluster : Cluster
  ts : Timestamp := 0
  state : NetState := {}
  timers : List OnceTimer := []
  setting : SimulatorSetting := {}
  hostMapping : Option (String → Option String) := none

namespace Simulator

/-- `SimulatorBuilder::build`. -/
def build (cluster : Cluster) (setting : SimulatorSetting)
    (hostMapping : Option (String → Option String)) : Simulator where
  cluster := cluster
  setting := setting
  hostMapping := hostMapping

def updateFlowStartTs (sim : Simulator) (flow : Flow) (newTs : Timestamp) :
    Except Panic Simulator := do
  let state ← sim.state.updateFlowStartTs flow newTs
  return { sim with state := state }

def registerOnce (sim : Simulator) (nextReady : Timestamp) (token : Option Token)
    (timerId : Option TimerId) : Simulator :=
  { sim with timers := sim.timers ++ [⟨nextReady, token, timerId⟩] }

/-- The timer that fires first. -/
def peekTimer (platform : Platform) (sim : Simulator) : Option OnceTimer :=
  (platform.order 1 sim.timers).argmin OnceTimer.nextAlert

def maxMinFairnessConverge (platform : Platform) (sim : Simulator) : Except Panic Simulator := do
  let arena := sim.state.arena.forEach sim.state.runningFlows
    (Filling.resetFlow sim.setting.loopbackSpeed)
  let arena ← Filling.fillLoop sim.cluster sim.setting.fairness sim.state.runningFlows
    sim.state.linkFlows platform.fuel arena
  return { sim with state := { sim.state with arena := arena } }

/-- Complete the flows that end within `tsInc`, then start the flows ready after it. -/
def proceed (platform : Platform) (sim : Simulator) (tsInc : Duration) :
    Except Panic (Simulator × List TraceRecord) := do
  let (state, compFlows) ← sim.state.completeFlows sim.ts tsInc
  let state ← NetState.emitReadyFlows platform (sim.ts + tsInc) platform.fuel state
  return ({ sim with ts := sim.ts + tsInc, state := state }, compFlows)

/-- The times at which the next thing can happen: a completion, a start, a timer, the limit. -/
def nextTimes (platform : Platform) (sim : Simulator) (limit : Option Timestamp) :
    Except Panic (List Timestamp) := do
  let completions ← sim.state.runningFlows.mapM fun ref => (sim.state.arena ref).timeToComplete
  let firstReady := (sim.state.peekBuffered platform).map fun ref => (sim.state.arena ref).ts
  return completions.map (· + sim.ts) ++ firstReady.toList ++
    ((sim.peekTimer platform).map OnceTimer.nextAlert).toList ++ limit.toList

/-- Whether nothing is left that the simulator could wait for. -/
def idle (sim : Simulator) : Bool :=
  sim.state.runningFlows.isEmpty && sim.state.flowBufs.entries.isEmpty && sim.timers.isEmpty

def maxMinFairness (platform : Platform) (limit : Option Timestamp) :
    ℕ → Simulator → Except Panic (Simulator × AppEventKind)
  | 0, _ => .error .outOfFuel
  | fuel + 1, sim =>
      if limit.any (· ≤ sim.ts) then .ok (sim, .flowComplete [])
      else if sim.idle then .ok (sim, .flowComplete [])
      else do
        let sim ← sim.maxMinFairnessConverge platform
        let times ← sim.nextTimes platform limit
        let next ← unwrap times.min? Panic.nothingLeft
        let tsInc := next - sim.ts
        match sim.peekTimer platform with
        | some timer =>
            if tsInc = 0 ∧ timer.nextAlert = sim.ts then
              let sim := { sim with timers := sim.timers.erase timer }
              match timer.timerId with
              | some timerId => return (sim, .adapterNotification timer.token timerId)
              | none => return (sim, .userNotification timer.token)
            else
              let (sim, compFlows) ← sim.proceed platform tsInc
              if compFlows = [] then maxMinFairness platform limit fuel sim
              else return (sim, .flowComplete compFlows)
        | none =>
            let (sim, compFlows) ← sim.proceed platform tsInc
            if compFlows = [] then maxMinFairness platform limit fuel sim
            else return (sim, .flowComplete compFlows)

def runOneStep (platform : Platform) (sim : Simulator) (limit : Option Timestamp) :
    Except Panic (Simulator × AppEvent) := do
  let (sim, kind) ← maxMinFairness platform limit platform.fuel sim
  return (sim, ⟨sim.ts, kind⟩)

/-- The flows of an arrival are added at the present time, then the network is
rolled back to the earliest of them when that lies in an earlier microsecond. -/
def flowArrive (sim : Simulator) (recs : List TraceRecord) :
    Except Panic (Simulator × OnEventResult) := do
  assert (recs ≠ []) Panic.noFlowArrives
  let state ← recs.foldlM
    (fun state record => state.addFlow record sim.cluster sim.ts sim.hostMapping) sim.state
  let minTs := ((recs.map TraceRecord.ts).min?).getD sim.ts
  if minTs < sim.ts / 1000 * 1000 then
    let (state, affected) ← state.rollbackTo sim.ts minTs
    return ({ sim with ts := minTs, state := state },
      .rollback (affected.map fun ref => ⟨(state.arena ref).ts, (state.arena ref).flow, none⟩))
  else
    return ({ sim with state := state }, .ok)

def onEvent (sim : Simulator) : Event → Except Panic (Simulator × OnEventResult)
  | .flowArrive recs => sim.flowArrive recs
  | .appFinish => .ok (sim, .simulationFinished)
  | .adapterRegisterTimer after token timerId =>
      .ok (sim.registerOnce (sim.ts + after) token (some timerId), .ok)
  | .userRegisterTimer after token => .ok (sim.registerOnce (sim.ts + after) token none, .ok)

end Simulator

end Phantora.Netsim
