import Mathlib.Algebra.BigOperators.Group.List.Basic
import Mathlib.Algebra.Order.Floor.Ring
import Mathlib.Data.Rat.Floor
import Phantora.Netsim.Cluster

/-!
# Flows, their states and flow sets

The records exchanged with the network simulator, the state it keeps for a
flow, and the sets of flows kept for a link. Rates and byte counts, `f64` in
the code, are exact rationals; a cast to `u64` truncates and saturates.
A shared flow state (`Rc<RefCell<FlowState>>`) is a reference into an arena.
-/

namespace Phantora.Netsim

open Outcome

/-- Nanoseconds. -/
abbrev Timestamp := ℕ
abbrev Duration := ℕ
abbrev Token := ℕ
abbrev TenantId := ℕ
abbrev TimerId := ℕ
abbrev FlowRef := ℕ

/-- A transfer. Two flows are equal for the code when their identifiers are. -/
structure Flow where
  id : ℕ
  bytes : ℕ
  src : String
  dst : String
  token : Option Token := none
  tenantId : Option TenantId := none
  vsrc : Option String := none
  vdst : Option String := none
deriving DecidableEq, Repr

instance : Inhabited Flow := ⟨⟨0, 0, "", "", none, none, none, none⟩⟩

/-- A flow with its start and, once the simulator has computed it, its duration. -/
structure TraceRecord where
  ts : Timestamp
  flow : Flow
  dura : Option Duration
deriving DecidableEq, Repr

inductive FairnessModel where
  | perFlowMaxMin
  | perVmPairMaxMin
  | tenantFlowMaxMin
deriving DecidableEq, Repr

/-- What the simulator tells the application. -/
inductive AppEventKind where
  | appStart
  | flowComplete (flows : List TraceRecord)
  | userNotification (token : Option Token)
  | adapterNotification (token : Option Token) (timerId : TimerId)
deriving DecidableEq, Repr

structure AppEvent where
  ts : Timestamp
  event : AppEventKind
deriving DecidableEq, Repr

/-- What the application tells the simulator. -/
inductive Event where
  | flowArrive (recs : List TraceRecord)
  | appFinish
  | adapterRegisterTimer (after : Duration) (token : Option Token) (timerId : TimerId)
  | userRegisterTimer (after : Duration) (token : Option Token)
deriving DecidableEq, Repr

inductive OnEventResult where
  | simulationFinished
  | ok
  | rollback (flows : List TraceRecord)
deriving DecidableEq, Repr

/-- The largest `u64`, which is also `bandwidth::MAX`. -/
def u64Max : ℕ := 2 ^ 64 - 1

/-- The largest finite `f64`. -/
def f64Max : ℚ := 2 ^ 1024 - 2 ^ 971

/-- The cast of a float to `u64`. -/
def asU64 (value : ℚ) : ℕ :=
  min ⌊value⌋.toNat u64Max

/-- A bandwidth divided by a float; dividing by zero gives infinity or NaN before the cast. -/
def divBandwidth (bandwidth : ℕ) (divisor : ℚ) : ℕ :=
  if divisor = 0 then (if bandwidth = 0 then 0 else u64Max) else asU64 (bandwidth / divisor)

/-- From `start` on the flow moved at `speed`, until the next entry. -/
structure SpeedHistoryEntry where
  start : Timestamp
  speed : ℚ
deriving DecidableEq, Repr

/-- A running flow. The last entry of the speed history is the head of the list. -/
structure FlowState where
  ts : Timestamp
  flow : Flow
  maxRate : ℕ
  speedBound : ℚ := 0
  converged : Bool := false
  bytesSent : ℚ := 0
  speed : ℚ := 0
  route : Route
  speedHistory : List SpeedHistoryEntry := []
deriving Repr

instance : Inhabited FlowState := ⟨⟨0, default, 0, 0, false, 0, 0, default, []⟩⟩

namespace FlowState

/-- Nanoseconds until the flow is complete at its present speed. -/
def remainingTime (state : FlowState) : Duration :=
  ⌈(state.flow.bytes - state.bytesSent) * 8 / state.speed * 1000000000⌉.toNat

/-- `remainingTime` behind the assertion that the flow moves. -/
def timeToComplete (state : FlowState) : Except Panic Duration := do
  assert (0 < state.speed) Panic.speedNotPositive
  return state.remainingTime

/-- Whether all bytes are sent; the second test asserts that the flow moves. -/
def completed (state : FlowState) : Except Panic Bool :=
  if state.flow.bytes ≤ state.bytesSent then .ok true
  else do
    let remaining ← state.timeToComplete
    return remaining = 0

def isLoopback (state : FlowState) : Bool :=
  state.route.path.isEmpty

/-- The flow moved at its speed from `simTs` on for `tsInc`. -/
def advance (simTs : Timestamp) (tsInc : Duration) (state : FlowState) : FlowState :=
  { state with
    speedHistory := ⟨simTs, state.speed⟩ :: state.speedHistory
    bytesSent := state.bytesSent + state.speed / 1000000000 * tsInc / 8 }

/-- Close the speed history of a completed flow. -/
def retire (endTs : Timestamp) (state : FlowState) : FlowState :=
  { state with speedHistory := ⟨endTs, 0⟩ :: state.speedHistory }

end FlowState

/-- The shared flow states. -/
abbrev Arena := FlowRef → FlowState

namespace Arena

/-- Mutate one flow state. -/
def modify (arena : Arena) (ref : FlowRef) (f : FlowState → FlowState) : Arena :=
  Function.update arena ref (f (arena ref))

/-- Mutate the flow states of a list of references, in order. -/
def forEach (arena : Arena) (refs : List FlowRef) (f : FlowState → FlowState) : Arena :=
  refs.foldl (fun arena ref => arena.modify ref f) arena

end Arena

/-- `retain` with a predicate that may fail. -/
def retainM (keep : FlowRef → Except Panic Bool) : List FlowRef → Except Panic (List FlowRef)
  | [] => .ok []
  | ref :: refs => do
      let kept ← keep ref
      let rest ← retainM keep refs
      return if kept then ref :: rest else rest

/-- The flows of one link, grouped when the fairness model needs it. -/
inductive FlowSet where
  | flat (flows : List FlowRef)
  | groupByVmPair (groups : List (ℕ × List FlowRef))
  | groupByTenant (groups : List (TenantId × List FlowRef))
deriving DecidableEq, Repr

/-- The value of a list of decimal digits. -/
def parseDigits (digits : List Char) : Option ℕ :=
  if digits = [] ∨ digits.any (fun digit => !digit.isDigit) then none
  else
    let value := digits.foldl (fun value digit => 10 * value + (digit.toNat - 48)) 0
    if value ≤ u64Max then some value else none

/-- `parse::<usize>` allows one leading plus sign. -/
def parseUsize : List Char → Option ℕ
  | '+' :: digits => parseDigits digits
  | digits => parseDigits digits

/-- The number after the prefix `host_`. -/
def vmId (name : String) : Option ℕ :=
  if "host_".toList <+: name.toList then parseUsize (name.toList.drop 5) else none

/-- The group of a flow under per-VM-pair fairness; both halves are read from `vsrc`. Bits that are
shifted out of the word are lost. -/
def hashVmPair (flow : Flow) : Except Panic ℕ := do
  let vsrc ← unwrap flow.vsrc .missingVmName
  let vsrcId ← unwrap (vmId vsrc) .missingVmName
  let vdstId ← unwrap (vmId vsrc) .missingVmName
  return ((vsrcId <<< 32) % 2 ^ 64) ||| vdstId

/-- `entry(key).or_insert_with(Vec::new).push(ref)`. -/
def pushGroup (groups : List (ℕ × List FlowRef)) (key : ℕ) (ref : FlowRef) :
    List (ℕ × List FlowRef) :=
  match groups with
  | [] => [(key, [ref])]
  | (other, refs) :: rest =>
      if other = key then (other, refs ++ [ref]) :: rest
      else (other, refs) :: pushGroup rest key ref

namespace FlowSet

def new : FairnessModel → FlowSet
  | .perFlowMaxMin => flat []
  | .perVmPairMaxMin => groupByVmPair []
  | .tenantFlowMaxMin => groupByTenant []

def push (arena : Arena) (ref : FlowRef) : FlowSet → Except Panic FlowSet
  | flat flows => .ok (flat (flows ++ [ref]))
  | groupByVmPair groups => do
      let key ← hashVmPair (arena ref).flow
      return groupByVmPair (pushGroup groups key ref)
  | groupByTenant groups => do
      let key ← unwrap (arena ref).flow.tenantId .missingTenant
      return groupByTenant (pushGroup groups key ref)

def isEmpty : FlowSet → Bool
  | flat flows => flows.isEmpty
  | groupByVmPair groups => groups.isEmpty
  | groupByTenant groups => groups.isEmpty

/-- `retain` on every group, then on the groups that are not empty. -/
def retainGroups (keep : FlowRef → Except Panic Bool) (groups : List (ℕ × List FlowRef)) :
    Except Panic (List (ℕ × List FlowRef)) := do
  let kept ← groups.mapM fun group => do
    let refs ← retainM keep group.2
    return (group.1, refs)
  return kept.filter fun group => !group.2.isEmpty

def retain (keep : FlowRef → Except Panic Bool) : FlowSet → Except Panic FlowSet
  | flat flows => flat <$> retainM keep flows
  | groupByVmPair groups => groupByVmPair <$> retainGroups keep groups
  | groupByTenant groups => groupByTenant <$> retainGroups keep groups

/-- What the nested iterator yields: it goes on to the next group once per call,
so an empty group after the first ends the iteration. -/
def groupedIter : List (List FlowRef) → List FlowRef
  | [] => []
  | group :: groups => group ++ (groups.takeWhile fun group => !group.isEmpty).flatten

/-- The flows that `iter` and `iter_mut` yield. -/
def iter : FlowSet → List FlowRef
  | flat flows => flows
  | groupByVmPair groups => groupedIter (groups.map Prod.snd)
  | groupByTenant groups => groupedIter (groups.map Prod.snd)

end FlowSet

end Phantora.Netsim
