import Mathlib.Data.List.Basic

/-!
# What the model takes from outside the code

Every assertion, `unwrap` and index of the source that can fail has a
constructor of `Panic`. A `Platform` gives what the source leaves to its
surroundings: the iteration order of hash maps and hash sets, the tie break of
heaps, and a bound on the iterations of every loop and on the depth of every
recursion, exceeded only by computations that the bound is too small for.
-/

namespace Phantora

/-- The reasons why a computation of the source fails. -/
inductive Panic where
  /-- A loop or a recursion of the model exceeds the bound of its platform. -/
  | outOfFuel
  -- netsim::cluster
  | unknownNode | depthMismatch | noParent | routeNotFound
  | repeatedKey | layersMisaligned | notInLayer
  -- netsim::architecture and netsim::config
  | oddPorts | wrongHostCount
  -- netsim::simulator
  | unknownHostname | noFlowArrives | missingVmName | missingTenant
  | speedOverMaxRate | noActiveObject | flowsNotGrouped | emptyFlowSet | notConverged
  | speedNotPositive | nothingLeft | lateReadyFlow | flowNotBuffered
  | emptySpeedHistory | retiredStillMoving | revertedTooMuch | sentBeforeStart | historyBeforeStart
  -- netsim::app
  | timestampUnderflow | appOutOfRange | adapterTimer | userNotification | tokenUnmarked
  | flowTokenStored | flowTokenMissing | timerStored | timerMissing
  -- phantora::event_queue
  | tokenAlreadySet | negativeTime | missingToken | missingDuration | unexpectedAppEvent
  | completionMismatch | startTimeMismatch | pendingMissing | startedMissing | actionMissing
  | dependencyOfReleased | endNotQueued
  -- phantora::simulator
  | unknownComm | unknownEvent | missingCallDuration | missingRank | rootOutOfRange | emptyComm
deriving DecidableEq, Repr

/-- The parts of the platform that the behaviour of the code depends on. -/
structure Platform where
  /-- Bound on the iterations of a loop and on the depth of a recursion. -/
  fuel : ℕ
  /-- The order in which a hash map or a heap presents its items; the stamp tells
  one traversal from another. -/
  order : ∀ {α : Type}, ℕ → List α → List α
  order_perm : ∀ {α : Type} (stamp : ℕ) (items : List α), (order stamp items).Perm items

namespace Platform

/-- The platform that presents items in insertion order. -/
def inOrder (fuel : ℕ) : Platform where
  fuel := fuel
  order _ items := items
  order_perm _ _ := List.Perm.refl _

@[simp]
theorem mem_order (platform : Platform) {α : Type} {stamp : ℕ} {items : List α} {item : α} :
    item ∈ platform.order stamp items ↔ item ∈ items :=
  (platform.order_perm stamp items).mem_iff

end Platform

end Phantora
