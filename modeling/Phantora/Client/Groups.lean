import Phantora.Lib.Outcome
import Phantora.Simulator.Client

/-!
# Groups of NCCL calls

A thread may nest groups and may end groups that it has not started. The calls
inside a group wait for the end of the outermost group, the others are sent at
once.
-/

namespace Phantora

open Outcome

/-- A call of the NCCL library that may be part of a group. -/
abbrev NcclCall := {call : CudaCall // call.isGrouped = true}

/-- What a thread asks of its caller. -/
inductive GroupOp where
  | groupStart
  | groupEnd
  | call (call : NcclCall)

/-- The calls of some operations, in the order in which they are issued. -/
def issuedCalls (ops : List GroupOp) : List CudaCall :=
  ops.filterMap fun
    | .call call => some call.val
    | _ => none

/-- The number of groups that are open; an end without a start counts for nothing. -/
def depth (ops : List GroupOp) : ℕ :=
  ops.foldl (fun depth op =>
    match op with
    | .groupStart => depth + 1
    | .groupEnd => depth - 1
    | .call _ => depth) 0

/-- Between these operations and the next ones a group is opened that stays open. -/
def Opened (before inner : List GroupOp) : Prop :=
  depth before = 0 ∧ ∀ part, part <+: inner → 0 < depth (before ++ .groupStart :: part)

namespace NcclCaller

def perform (caller : NcclCaller) : GroupOp → NcclCaller × Exchange
  | .groupStart => (caller.groupStart, {})
  | .groupEnd => caller.groupEnd
  | .call call => caller.call call.val

/-- The caller of a thread after some operations. -/
def after (ops : List GroupOp) : NcclCaller :=
  ops.foldl (fun caller op => (caller.perform op).1) {}

/-- What an operation sends that follows others. -/
def sends (ops : List GroupOp) (op : GroupOp) : List CudaCall :=
  ((after ops).perform op).2.sends

/-- All that is sent, message after message. -/
def sent (ops : List GroupOp) : List CudaCall :=
  (ops.foldl (fun state op =>
    ((state.1.perform op).1, state.2 ++ (state.1.perform op).2.sends)) (({} : NcclCaller), [])).2

variable {ops before inner : List GroupOp}

@[simp]
theorem depth_concat (ops : List GroupOp) (op : GroupOp) :
    depth (ops ++ [op]) = match op with
      | .groupStart => depth ops + 1
      | .groupEnd => depth ops - 1
      | .call _ => depth ops := by
  simp [depth]

@[simp]
theorem after_concat (ops : List GroupOp) (op : GroupOp) :
    after (ops ++ [op]) = ((after ops).perform op).1 := by
  simp [after]

theorem sent_concat (ops : List GroupOp) (op : GroupOp) :
    sent (ops ++ [op]) = sent ops ++ sends ops op := by
  have state : ∀ (ops : List GroupOp), (ops.foldl (fun state op =>
      ((state.1.perform op).1, state.2 ++ (state.1.perform op).2.sends))
      (({} : NcclCaller), ([] : List CudaCall))).1 = after ops := by
    intro ops
    induction ops using List.reverseRecOn with
    | nil => rfl
    | append_singleton ops op ih => simp [ih]
  simp [sent, sends, state]

theorem issuedCalls_append (ops more : List GroupOp) :
    issuedCalls (ops ++ more) = issuedCalls ops ++ issuedCalls more :=
  List.filterMap_append

/-- The counter of the caller counts the groups that are open. -/
@[simp]
theorem groupCounter_after (ops : List GroupOp) : (after ops).groupCounter = depth ops := by
  induction ops using List.reverseRecOn with
  | nil => rfl
  | append_singleton ops op ih =>
      rw [after_concat, depth_concat]
      cases op with
      | groupStart => simp [perform, groupStart, ih]
      | groupEnd =>
          simp only [perform, groupEnd, ih]
          split
          · rename_i closes
            exact closes.symm
          · rfl
      | call call =>
          simp only [perform, NcclCaller.call]
          split
          · exact ih
          · split <;> exact ih

/-- Nothing waits outside a group. -/
theorem groupedCalls_of_outside (outside : depth ops = 0) : (after ops).groupedCalls = [] := by
  induction ops using List.reverseRecOn with
  | nil => rfl
  | append_singleton ops op ih =>
      rw [depth_concat] at outside
      rw [after_concat]
      cases op with
      | groupStart => exact absurd outside (Nat.succ_ne_zero _)
      | groupEnd => simp [perform, groupEnd, outside]
      | call call =>
          have closed : (after ops).groupCounter = 0 := (groupCounter_after ops).trans outside
          simp only [perform, NcclCaller.call, closed, Nat.lt_irrefl, if_false]
          split <;> exact ih outside

/-- Inside a group the calls since its start wait. -/
theorem groupedCalls_of_opened (opened : Opened before inner) :
    (after (before ++ .groupStart :: inner)).groupedCalls = issuedCalls inner := by
  induction inner using List.reverseRecOn with
  | nil =>
      have started : (after (before ++ [.groupStart])).groupedCalls =
          (after before).groupedCalls := by
        simp [perform, groupStart]
      exact started.trans (groupedCalls_of_outside opened.1)
  | append_singleton inner op ih =>
      have shorter : Opened before inner :=
        ⟨opened.1, fun part isPart => opened.2 part (isPart.trans (List.prefix_append _ _))⟩
      have stays := opened.2 _ List.prefix_rfl
      have inside := shorter.2 _ List.prefix_rfl
      rw [← List.cons_append, ← List.append_assoc, depth_concat] at stays
      rw [← List.cons_append, ← List.append_assoc, after_concat, issuedCalls_append]
      cases op with
      | groupStart => simpa [perform, groupStart, issuedCalls] using ih shorter
      | groupEnd =>
          have notClosed : depth (before ++ .groupStart :: inner) - 1 ≠ 0 := stays.ne'
          simpa [perform, groupEnd, notClosed, issuedCalls] using ih shorter
      | call call =>
          simp [perform, NcclCaller.call, inside, ih shorter, issuedCalls]

/-- Inside a group there is the start of the outermost one. -/
theorem exists_opened (inside : 0 < depth ops) :
    ∃ before inner, ops = before ++ .groupStart :: inner ∧ Opened before inner := by
  induction ops using List.reverseRecOn with
  | nil => exact absurd inside (Nat.lt_irrefl 0)
  | append_singleton ops op ih =>
      by_cases wasInside : 0 < depth ops
      · rcases ih wasInside with ⟨before, inner, rfl, opened⟩
        refine ⟨before, inner ++ [op], by simp, opened.1, ?_⟩
        intro part isPart
        rcases List.prefix_concat_iff.mp isPart with rfl | shorter
        · simpa using inside
        · exact opened.2 part shorter
      · rw [depth_concat] at inside
        cases op with
        | groupStart =>
            refine ⟨ops, [], rfl, by omega, ?_⟩
            intro part isPart
            rw [List.prefix_nil.mp isPart, depth_concat]
            exact inside
        | groupEnd => exact absurd inside (by dsimp only; omega)
        | call call => exact absurd inside wasInside

/-- The calls that have been sent, the point-to-point calls and the calls that are answered. -/
structure Drained where
  sends : List CudaCall := []
  p2pCalls : List CudaCall := []
  responsedCalls : List CudaCall := []

/-- `for call in self.grouped_calls.drain(..)` -/
def drainStep (state : Drained) : CudaCall → Drained
  | .ncclSend count dtype peer comm stream =>
      { state with p2pCalls := state.p2pCalls ++ [.ncclSend count dtype peer comm stream] }
  | .ncclRecv count dtype peer comm stream =>
      { state with p2pCalls := state.p2pCalls ++ [.ncclRecv count dtype peer comm stream] }
  | .ncclCommInitRank device rank nranks id =>
      if 1 < nranks then
        { state with
          sends := state.sends ++ [.ncclCommInitRank device rank nranks id]
          responsedCalls := state.responsedCalls ++ [.ncclCommInitRank device rank nranks id] }
      else state
  | .ncclCommSplit comm color key =>
      { state with
        sends := state.sends ++ [.ncclCommSplit comm color key]
        responsedCalls := state.responsedCalls ++ [.ncclCommSplit comm color key] }
  | call => { state with sends := state.sends ++ [call] }

def drain (calls : List CudaCall) : Exchange :=
  let state := calls.foldl drainStep {}
  { sends := if state.p2pCalls.isEmpty then state.sends
      else state.sends ++ [.ncclP2pGroup state.p2pCalls]
    reads := state.responsedCalls }

/-- The loop sorts the calls into three lists. -/
theorem foldl_drainStep (calls : List CudaCall) : calls.foldl drainStep {} =
    { sends := calls.filter fun call => !call.isP2P && !call.isSingleInit
      p2pCalls := calls.filter CudaCall.isP2P
      responsedCalls := calls.filter CudaCall.isResponsed } := by
  induction calls using List.reverseRecOn with
  | nil => rfl
  | append_singleton calls call ih =>
      rw [List.foldl_append, ih]
      cases call with
      | ncclCommInitRank device rank nranks id =>
          by_cases many : 1 < nranks
          · have notSingle : ¬nranks ≤ 1 := not_le.mpr many
            simp [drainStep, many, notSingle, CudaCall.isP2P, CudaCall.isSingleInit,
              CudaCall.isResponsed]
          · have single : nranks ≤ 1 := not_lt.mp many
            simp [drainStep, many, single, CudaCall.isP2P, CudaCall.isSingleInit,
              CudaCall.isResponsed]
      | _ =>
          simp [drainStep, List.filter_cons, CudaCall.isP2P, CudaCall.isSingleInit,
            CudaCall.isResponsed]

/-- What is flushed at the end of a group is what the loop sends and reads. -/
theorem flush_eq_drain (calls : List CudaCall) : flush calls = drain calls := by
  rw [drain, foldl_drainStep, flush]
  by_cases none_ : (calls.filter CudaCall.isP2P).isEmpty = true
  · simp only [none_, if_true, List.append_nil]
  · simp only [none_]
    rfl

/-- The calls of a message. -/
def expand : CudaCall → List CudaCall
  | .ncclP2pGroup calls => calls
  | call => [call]

/-- The calls that are sent at all. -/
def sendable (calls : List CudaCall) : List CudaCall :=
  calls.filter fun call => !call.isSingleInit

theorem sendable_append (calls more : List CudaCall) :
    sendable (calls ++ more) = sendable calls ++ sendable more :=
  List.filter_append _ _

/-- When the calls of a thread are sent. -/
structure SendsOnce (ops : List GroupOp) : Prop where
  empty : (after ops).groupCounter = 0 → (after ops).groupedCalls = []
  outside : (after ops).groupCounter = 0 → ∀ call : NcclCall,
    sends ops (.call call) = sendable [call.val]
  inside : 0 < (after ops).groupCounter → ∀ call, sends ops (.call call) = []
  starting : sends ops .groupStart = []
  inner : depth ops ≠ 1 → sends ops .groupEnd = []
  closing : depth ops = 1 → ∃ before inner, ops = before ++ .groupStart :: inner ∧
    Opened before inner ∧ sends ops .groupEnd =
      (sendable (issuedCalls inner)).filter (fun call => !call.isP2P) ++
        (if (issuedCalls inner).filter CudaCall.isP2P = [] then []
          else [.ncclP2pGroup ((issuedCalls inner).filter CudaCall.isP2P)])
  once : ((sent ops).flatMap expand ++ sendable (after ops).groupedCalls).Perm
    (sendable (issuedCalls ops))

theorem flush_sends (calls : List CudaCall) : (flush calls).sends =
    (sendable calls).filter (fun call => !call.isP2P) ++
      (if calls.filter CudaCall.isP2P = [] then []
        else [.ncclP2pGroup (calls.filter CudaCall.isP2P)]) := by
  simp only [flush, sendable, List.filter_filter, List.isEmpty_iff]

theorem sends_groupEnd (ops : List GroupOp) :
    sends ops .groupEnd = if depth ops = 1 then (flush (after ops).groupedCalls).sends else [] := by
  by_cases outside : depth ops = 0
  · have empty := groupedCalls_of_outside outside
    simp [sends, perform, groupEnd, outside, empty, flush]
  · by_cases last : depth ops = 1
    · simp [sends, perform, groupEnd, last]
    · have stays : ¬depth ops - 1 = 0 := by omega
      simp [sends, perform, groupEnd, last, stays]

/-- The messages of a group hold its calls. -/
theorem flatMap_expand_flush {calls : List CudaCall}
    (grouped : ∀ call ∈ calls, call.isGrouped = true) :
    ((flush calls).sends.flatMap expand).Perm (sendable calls) := by
  have alone : ∀ rest : List CudaCall, (∀ call ∈ rest, call ∈ calls) →
      rest.flatMap expand = rest := by
    intro rest
    induction rest with
    | nil => exact fun _ => rfl
    | cons call rest ih =>
        intro among
        have single : expand call = [call] := by
          have isGrouped := grouped call (among call List.mem_cons_self)
          cases call <;> first | rfl | cases isGrouped
        rw [List.flatMap_cons, single, ih fun other mem => among other (List.mem_cons_of_mem _ mem)]
        rfl
  have others := alone ((sendable calls).filter fun call => !call.isP2P) fun call mem =>
    List.mem_of_mem_filter (List.mem_of_mem_filter mem)
  have p2p : sendable (calls.filter CudaCall.isP2P) = calls.filter CudaCall.isP2P := by
    rw [sendable, List.filter_eq_self]
    intro call mem
    have isP2P := List.of_mem_filter mem
    cases call <;> first | rfl | cases isP2P
  have group : (if calls.filter CudaCall.isP2P = [] then []
      else [CudaCall.ncclP2pGroup (calls.filter CudaCall.isP2P)]).flatMap expand =
        (sendable calls).filter CudaCall.isP2P := by
    rw [sendable, List.filter_comm, ← sendable, p2p]
    split
    · rename_i none_
      rw [none_]
      rfl
    · simp [expand]
  rw [flush_sends, List.flatMap_append, others, group]
  have parts := List.filter_append_perm (fun call : CudaCall => !call.isP2P) (sendable calls)
  simpa using parts

theorem isGrouped_of_issued {call : CudaCall} (mem : call ∈ issuedCalls ops) :
    call.isGrouped = true := by
  rcases List.mem_filterMap.mp mem with ⟨op, _, same⟩
  cases op with
  | groupStart => cases same
  | groupEnd => cases same
  | call issued =>
      cases same
      exact issued.property

/-- What has been sent and what waits is what has been issued. -/
theorem once (ops : List GroupOp) :
    ((sent ops).flatMap expand ++ sendable (after ops).groupedCalls).Perm
      (sendable (issuedCalls ops)) := by
  induction ops using List.reverseRecOn with
  | nil => exact .refl _
  | append_singleton ops op ih =>
      rw [sent_concat, List.flatMap_append, after_concat, issuedCalls_append]
      cases op with
      | groupStart =>
          have nothing : sends ops .groupStart = [] := rfl
          simpa [nothing, perform, groupStart, issuedCalls] using ih
      | groupEnd =>
          have issued : issuedCalls [.groupEnd] = [] := rfl
          rw [sends_groupEnd, issued, List.append_nil]
          by_cases last : depth ops = 1
          · have closed : ((after ops).perform .groupEnd).1.groupedCalls = [] := by
              simp [perform, groupEnd, last]
            have grouped : ∀ call ∈ (after ops).groupedCalls, call.isGrouped = true := by
              rcases exists_opened (last ▸ Nat.zero_lt_one) with ⟨before, inner, rfl, opened⟩
              rw [groupedCalls_of_opened opened]
              exact fun call mem => isGrouped_of_issued mem
            rw [closed, if_pos last]
            have flushed := (flatMap_expand_flush grouped).append_left ((sent ops).flatMap expand)
            simpa [sendable] using flushed.trans ih
          · rw [if_neg last]
            by_cases outside : depth ops = 0
            · have closed : ((after ops).perform .groupEnd).1.groupedCalls = [] := by
                simp [perform, groupEnd, outside]
              rw [groupedCalls_of_outside outside] at ih
              simpa [closed] using ih
            · have stays : ¬depth ops - 1 = 0 := by omega
              simpa [perform, groupEnd, stays] using ih
      | call call =>
          have issued : issuedCalls [.call call] = [call.val] := rfl
          have single : expand call.val = [call.val] := by
            rcases call with ⟨call, isGrouped⟩
            cases call <;> first | rfl | cases isGrouped
          rw [issued]
          by_cases inside : 0 < depth ops
          · have grouped : ((after ops).perform (.call call)).1.groupedCalls =
                (after ops).groupedCalls ++ [call.val] := by
              simp [perform, NcclCaller.call, inside]
            have nothing : sends ops (.call call) = [] := by
              simp [sends, perform, NcclCaller.call, inside]
            rw [grouped, nothing, List.flatMap_nil, List.append_nil, sendable_append,
              sendable_append, ← List.append_assoc]
            exact ih.append_right _
          · have outside : depth ops = 0 := Nat.eq_zero_of_not_pos inside
            have waits := groupedCalls_of_outside outside
            have nothing : ((after ops).perform (.call call)).1.groupedCalls = [] := by
              simp only [perform, NcclCaller.call, groupCounter_after, inside, if_false]
              split <;> exact waits
            have now : (sends ops (.call call)).flatMap expand = sendable [call.val] := by
              simp only [sends, perform, NcclCaller.call, groupCounter_after, inside, if_false]
              split
              · rename_i isSingle
                simp [sendable, isSingle]
              · rename_i isSent
                simp [sendable, isSent, single]
            rw [nothing, now, sendable_append]
            rw [waits] at ih
            have before : ((sent ops).flatMap expand).Perm (sendable (issuedCalls ops)) := by
              simpa [sendable] using ih
            simpa [sendable] using before.append_right (sendable [call.val])

/-- Calls outside a group are sent at once, the calls of a group at its end, and no call twice. -/
theorem sends_once (ops : List GroupOp) : SendsOnce ops := by
  refine ⟨?_, ?_, ?_, rfl, ?_, ?_, once ops⟩
  · exact fun closed => groupedCalls_of_outside ((groupCounter_after ops).symm.trans closed)
  · intro closed call
    simp only [sends, perform, NcclCaller.call, closed, Nat.lt_irrefl, if_false]
    split
    · rename_i isSingle
      simp [sendable, isSingle]
    · rename_i isSent
      simp [sendable, isSent]
  · intro inside call
    simp only [sends, perform, NcclCaller.call, if_pos inside]
  · intro notLast
    rw [sends_groupEnd, if_neg notLast]
  · intro last
    rcases exists_opened (last ▸ Nat.zero_lt_one) with ⟨before, inner, rfl, opened⟩
    refine ⟨before, inner, rfl, opened, ?_⟩
    rw [sends_groupEnd, if_pos last, groupedCalls_of_opened opened, flush_sends]

end NcclCaller

/-- What the NCCL library returns here. -/
inductive NcclResult where
  | success
  | systemError
  | invalidArgument
deriving DecidableEq, Repr

/-- A null pointer is read. -/
inductive Crash where
  | nullRead
deriving DecidableEq, Repr

/-- `struct ncclComm` -/
structure NcclCommData where
  rank : ℤ
  nranks : ℤ
  id : NcclId

/-- What a thread does in a call, what the call writes and what it returns. -/
structure InitAll where
  caller : NcclCaller
  exchanges : List Exchange
  comms : List NcclCommData := []
  result : NcclResult

/-- `devlist[i] >= count || devlist[i] < 0` for none of the devices -/
def checkDevices (count : ℤ) (devlist : Option (ℕ → ℤ)) : List ℕ → Except Crash Bool
  | [] => .ok true
  | i :: rest => do
      let devices ← unwrap devlist Crash.nullRead
      if count ≤ devices i ∨ devices i < 0 then return false
      else checkDevices count devlist rest

/-- The initialisation of one rank. -/
def initRank (id : NcclId) (ndev : ℤ) (devlist : Option (ℕ → ℤ)) (rank : ℕ) : CudaCall :=
  match devlist with
  | some devices => .ncclCommInitRank (devices rank) rank ndev id
  | none => .ncclCommInitRank rank rank ndev id

def initStep (id : NcclId) (ndev : ℤ) (devlist : Option (ℕ → ℤ)) (state : InitAll) (rank : ℕ) :
    InitAll :=
  let (caller, exchange) := state.caller.call (initRank id ndev devlist rank)
  { state with
    caller := caller
    exchanges := state.exchanges ++ [exchange]
    comms := state.comms ++ [⟨rank, ndev, id⟩] }

/-- `ncclCommInitAll`; the runtime counts the devices, or returns an error. -/
def ncclCommInitAll (caller : NcclCaller) (deviceCount : Option ℤ) (uniqueId : NcclId) (ndev : ℤ)
    (devlist : Option (ℕ → ℤ)) : Except Crash InitAll := do
  let opened : InitAll :=
    { caller := caller.groupStart
      exchanges := [⟨[.ncclGetUniqueId], [.ncclGetUniqueId]⟩]
      result := .success }
  match deviceCount with
  | none => return { opened with result := .systemError }
  | some count =>
      if count < ndev then return { opened with result := .invalidArgument }
      else do
        let valid ← checkDevices count devlist (List.range ndev.toNat)
        if valid then
          let joined := (List.range ndev.toNat).foldl (initStep uniqueId ndev devlist) opened
          let (caller, exchange) := joined.caller.groupEnd
          return { joined with caller := caller, exchanges := joined.exchanges ++ [exchange] }
        else return { opened with result := .invalidArgument }

/-- The call returns, with as many groups open as before, and accepts a null list. -/
def KeepsDepth (caller : NcclCaller) (deviceCount : Option ℤ) (uniqueId : NcclId) (ndev : ℤ)
    (devlist : Option (ℕ → ℤ)) : Prop :=
  ∃ done, ncclCommInitAll caller deviceCount uniqueId ndev devlist = .ok done ∧
    done.caller.groupCounter = caller.groupCounter ∧
    (devlist = none → (∃ count, deviceCount = some count ∧ ndev ≤ count) →
      done.result = .success)

section InitAll

variable {caller : NcclCaller} {deviceCount : Option ℤ} {uniqueId : NcclId} {ndev : ℤ}
  {devlist : Option (ℕ → ℤ)}

/-- The check succeeds for a list of devices that exist. -/
theorem checkDevices_eq_true_iff {count : ℤ} {ranks : List ℕ} :
    checkDevices count devlist ranks = .ok true ↔
      (ranks ≠ [] → ∃ devices, devlist = some devices ∧
        ∀ i ∈ ranks, 0 ≤ devices i ∧ devices i < count) := by
  induction ranks with
  | nil => simp [checkDevices]
  | cons i ranks ih =>
      cases devlist with
      | none => simp [checkDevices, unwrap]
      | some devices =>
          by_cases outside : count ≤ devices i ∨ devices i < 0
          · simp [checkDevices, unwrap, outside]
            omega
          · have inside : 0 ≤ devices i ∧ devices i < count := by omega
            have rest : checkDevices count (some devices) (i :: ranks) =
                checkDevices count (some devices) ranks := by
              simp only [checkDevices, unwrap, bind, Except.bind, if_neg outside]
            rw [rest, ih]
            by_cases empty : ranks = []
            · simp [empty, inside]
            · simp [empty, inside]

/-- Initialisations inside a group leave it open. -/
theorem foldl_initStep_groupCounter (ranks : List ℕ) (state : InitAll) :
    (ranks.foldl (initStep uniqueId ndev devlist) state).caller.groupCounter =
      state.caller.groupCounter := by
  induction ranks generalizing state with
  | nil => rfl
  | cons rank ranks ih =>
      rw [List.foldl_cons, ih]
      simp only [initStep, NcclCaller.call]
      split
      · rfl
      · split <;> rfl

theorem foldl_initStep_result (ranks : List ℕ) (state : InitAll) :
    (ranks.foldl (initStep uniqueId ndev devlist) state).result = state.result := by
  induction ranks generalizing state with
  | nil => rfl
  | cons rank ranks ih => exact (ih _).trans rfl

theorem groupCounter_groupEnd (caller : NcclCaller) :
    caller.groupEnd.1.groupCounter = caller.groupCounter - 1 := by
  simp only [NcclCaller.groupEnd]
  split
  · rename_i closes
    exact closes.symm
  · rfl

/-- The group that the call opens is closed again when all devices exist, and only then. -/
theorem ncclCommInitAll_keepsDepth_iff (caller : NcclCaller) (deviceCount : Option ℤ)
    (uniqueId : NcclId) (ndev : ℤ) (devlist : Option (ℕ → ℤ)) :
    KeepsDepth caller deviceCount uniqueId ndev devlist ↔
      ∃ count, deviceCount = some count ∧ ndev ≤ count ∧
        (0 < ndev → ∃ devices, devlist = some devices ∧
          ∀ i : ℕ, i < ndev → 0 ≤ devices i ∧ devices i < count) := by
  have left : ∀ state : InitAll, state.caller = caller.groupStart →
      state.caller.groupCounter ≠ caller.groupCounter := by
    intro state started
    rw [started]
    exact Nat.succ_ne_self _
  cases deviceCount with
  | none =>
      simp only [reduceCtorEq, false_and, exists_false, iff_false]
      rintro ⟨done, run, kept, _⟩
      simp only [ncclCommInitAll, pure_eq_ok] at run
      exact left done (by rw [← run]) kept
  | some count =>
      simp only [Option.some.injEq, exists_eq_left']
      by_cases few : count < ndev
      · refine iff_of_false ?_ (fun enough => absurd enough.1 (not_le.mpr few))
        rintro ⟨done, run, kept, _⟩
        simp only [ncclCommInitAll, if_pos few, pure_eq_ok] at run
        exact left done (by rw [← run]) kept
      · have ranks_iff : checkDevices count devlist (List.range ndev.toNat) = .ok true ↔
            (0 < ndev → ∃ devices, devlist = some devices ∧
              ∀ i : ℕ, i < ndev → 0 ≤ devices i ∧ devices i < count) := by
          rw [checkDevices_eq_true_iff]
          simp only [ne_eq, List.range_eq_nil, List.mem_range, Int.lt_toNat, Int.toNat_eq_zero,
            not_le]
        rw [← ranks_iff]
        constructor
        · rintro ⟨done, run, kept, _⟩
          simp only [ncclCommInitAll, if_neg few, bind_eq_ok] at run
          rcases run with ⟨valid, checked, run⟩
          cases valid with
          | true => exact ⟨not_lt.mp few, checked⟩
          | false =>
              simp only [Bool.false_eq_true, if_false, pure_eq_ok] at run
              exact absurd kept (left done (by rw [← run]))
        · rintro ⟨_, checked⟩
          refine ⟨_, by simp only [ncclCommInitAll, if_neg few, checked]; rfl, ?_, ?_⟩
          · rw [groupCounter_groupEnd, foldl_initStep_groupCounter]
            rfl
          · exact fun _ _ => foldl_initStep_result _ _

end InitAll

/-- Three communicators on two devices. -/
theorem not_keepsDepth_manyDevices : ¬∀ caller deviceCount uniqueId ndev devlist,
    KeepsDepth caller deviceCount uniqueId ndev devlist := by
  intro claimed
  rcases claimed {} (some 2) unknownNcclId 3 (some fun i => i) with ⟨done, run, kept, _⟩
  have refused : (2 : ℤ) < 3 := by decide
  simp only [ncclCommInitAll, if_pos refused, pure_eq_ok] at run
  subst run
  exact absurd kept (by decide)

end Phantora
