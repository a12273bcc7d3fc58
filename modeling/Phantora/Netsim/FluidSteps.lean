import Phantora.Netsim.FluidNetwork
import Phantora.Netsim.Keys

/-!
# Steps follow the fluid schedule

Between two events of the simulator no flow starts and none completes, so that
the rates computed at the first one are those of the fluid schedule until the
second one: bytes sent, speed histories and completions are as the schedule says.
-/

namespace Phantora.Netsim

open Outcome Finset

namespace FlowState

variable {f : FlowState} {elapsed : ℕ}

/-- Before its remaining time is over a flow lacks something. -/
theorem lacks_of_remaining (moves : 0 < f.speed) (before : elapsed < f.remainingTime) :
    f.bytesSent + elapsed • bytesPerNs f.speed < f.flow.bytes := by
  have time : (elapsed : ℚ) < (f.flow.bytes - f.bytesSent) * 8 / f.speed * 1000000000 := by
    have lt := Int.lt_ceil.mp (Int.lt_toNat.mp before)
    exact_mod_cast lt
  have scaled := mul_lt_mul_of_pos_right time moves
  have cancel : (f.flow.bytes - f.bytesSent) * 8 / f.speed * 1000000000 * f.speed =
      (f.flow.bytes - f.bytesSent) * 8 * 1000000000 := by
    field_simp
  rw [cancel] at scaled
  rw [nsmul_eq_mul, bytesPerNs]
  linarith

/-- A flow that moves is complete when its bytes are sent. -/
theorem isCompleted_iff (moves : 0 < f.speed) :
    f.isCompleted = true ↔ (f.flow.bytes : ℚ) ≤ f.bytesSent := by
  rw [isCompleted, Bool.or_eq_true, decide_eq_true_iff, decide_eq_true_iff]
  refine ⟨?_, Or.inl⟩
  rintro (sent | atOnce)
  · exact sent
  · by_contra lacks
    have left : 0 < (f.flow.bytes : ℚ) - f.bytesSent := sub_pos.mpr (not_le.mp lacks)
    have time : 0 < (f.flow.bytes - f.bytesSent) * 8 / f.speed * 1000000000 := by positivity
    rw [remainingTime, Int.toNat_eq_zero, Int.ceil_le] at atOnce
    exact absurd atOnce (by exact_mod_cast not_le.mpr time)

end FlowState

/-- Up to a time the flow has sent what the load grants the flow of the record. -/
structure Sends (load : Fluid.Load TraceRecord ℚ) (f : FlowState) (record : TraceRecord)
    (ts : Timestamp) : Prop where
  chronicle : Chronicle f.speedHistory ts
  speeds : ∀ t < ts, bytesPerNs (speedAt f.speedHistory t) = load.rateAt t record
  sent : f.bytesSent = load.sent ts record

namespace Sends

variable {load load' : Fluid.Load TraceRecord ℚ} {f g : FlowState} {record : TraceRecord}
  {ts next : Timestamp}

theorem congr (sends : Sends load f record ts) (history : g.speedHistory = f.speedHistory)
    (bytes : g.bytesSent = f.bytesSent) : Sends load g record ts :=
  ⟨history ▸ sends.chronicle, history ▸ sends.speeds, bytes.trans sends.sent⟩

/-- A flow that has not started has sent nothing. -/
theorem waiting (early : ts ≤ load.start record) (history : f.speedHistory = [])
    (bytes : f.bytesSent = 0) : Sends load f record ts where
  chronicle := history ▸ .nil ts
  speeds t before := by
    rw [history, Fluid.Load.rateAt_of_lt_start (before.trans_le early)]
    simp [speedAt, bytesPerNs]
  sent := bytes.trans (Fluid.Load.sent_eq_zero early).symm

/-- A flow that moves at the rate of the load. -/
theorem advance (sends : Sends load f record ts) (later : ts ≤ next)
    (rates : ∀ t, ts ≤ t → t < next → load.rateAt t record = bytesPerNs f.speed) :
    Sends load (f.advance ts (next - ts)) record next where
  chronicle := sends.chronicle.cons later
  speeds t before := by
    rw [FlowState.advance]
    dsimp only
    by_cases past : t < ts
    · rw [speedAt_cons_of_lt past]
      exact sends.speeds t past
    · have now := not_lt.mp past
      rw [speedAt_cons_of_le now, rates t now before]
  sent := by
    have granted : ∑ t ∈ Ico ts next, load.rateAt t record =
        ((next - ts : ℕ) : ℚ) * bytesPerNs f.speed := by
      rw [sum_congr rfl fun t mem => rates t (mem_Ico.mp mem).1 (mem_Ico.mp mem).2, sum_const,
        Nat.card_Ico, nsmul_eq_mul]
    rw [Fluid.Load.sent_eq_add_sum later, granted, ← sends.sent, FlowState.advance, bytesPerNs]
    ring

theorem retire (sends : Sends load f record ts) : Sends load (f.retire ts) record ts where
  chronicle := sends.chronicle.cons le_rfl
  speeds t before := by
    rw [FlowState.retire, speedAt_cons_of_lt before]
    exact sends.speeds t before
  sent := sends.sent

/-- A flow that is granted nothing and stands still. -/
theorem rest (sends : Sends load f record ts) (later : ts ≤ next)
    (rates : ∀ t, ts ≤ t → t < next → load.rateAt t record = 0)
    (still : ∀ t, ts ≤ t → speedAt f.speedHistory t = 0) : Sends load f record next where
  chronicle := ⟨sends.chronicle.sorted, fun entry mem =>
    (sends.chronicle.past entry mem).trans later⟩
  speeds t before := by
    by_cases past : t < ts
    · exact sends.speeds t past
    · have now := not_lt.mp past
      rw [still t now, rates t now before]
      simp [bytesPerNs]
  sent := by
    rw [Fluid.Load.sent_eq_add_sum later, ← sends.sent, sum_eq_zero, add_zero]
    exact fun t mem => rates t (mem_Ico.mp mem).1 (mem_Ico.mp mem).2

/-- Flows that start later change nothing. -/
theorem extend (sends : Sends load f record ts) (extends_ : load.Extends load' ts) :
    Sends load' f record ts where
  chronicle := sends.chronicle
  speeds t before := by
    rw [extends_.rateAt before]
    exact sends.speeds t before
  sent := by
    rw [extends_.sent le_rfl]
    exact sends.sent

end Sends

namespace Simulator

variable {platform : Platform} {base sim sim' filled : Simulator} {records : List TraceRecord}
  {ref : FlowRef} {record : TraceRecord} {next : Timestamp}

@[simp]
theorem fluid_start (sim : Simulator) (records : List TraceRecord) (record : TraceRecord) :
    (sim.fluid records).start record = record.ts := rfl

@[simp]
theorem fluid_size (sim : Simulator) (records : List TraceRecord) (record : TraceRecord) :
    (sim.fluid records).size record = record.flow.bytes := rfl

@[simp]
theorem mem_fluid_jobs : record ∈ (sim.fluid records).jobs ↔ record ∈ records :=
  List.mem_toFinset

theorem fluid_rate (sim : Simulator) (records : List TraceRecord) (active : Finset TraceRecord)
    (record : TraceRecord) :
    (sim.fluid records).rate active record = bytesPerNs (sim.maxMinSpeed active record) := rfl

/-- The state of the network is that of the load at the time of the simulator. -/
structure Follows (load : Fluid.Load TraceRecord ℚ) (sim : Simulator)
    (records : List TraceRecord) : Prop where
  sends : ∀ {ref record}, records[ref]? = some record →
    Sends load (sim.state.arena ref) record sim.ts
  waits : ∀ {ref record}, records[ref]? = some record → sim.ts < record.ts →
    (sim.state.arena ref).speedHistory = []
  /-- A flow that runs lacks something, or it has no bytes and starts now. -/
  runs : ∀ {ref record}, records[ref]? = some record → ref ∉ sim.state.retiredFlows →
    record.ts ≤ sim.ts → load.sent sim.ts record < record.flow.bytes ∨
      (record.flow.bytes = 0 ∧ record.ts = sim.ts)
  rests : ∀ {ref record}, records[ref]? = some record → ref ∈ sim.state.retiredFlows →
    load.Finishes record (sim.state.arena ref).endTs ∧ (sim.state.arena ref).endTs ≤ sim.ts

/-- The running flows move at the max-min rates of the load. -/
def Paces (base sim : Simulator) (records : List TraceRecord) : Prop :=
  ∀ {ref record}, ref ∈ sim.state.runningFlows → records[ref]? = some record →
    (sim.state.arena ref).speed = base.maxMinSpeed (sim.runningRecords records) record

/-- What the proofs about a simulator that follows its load use. -/
structure Flowing (base sim : Simulator) (records : List TraceRecord) : Prop where
  represented : sim.Represented
  begun : sim.state.Begun sim.ts
  holds : sim.state.Holds records
  carries : sim.Carries records
  network : base.SameNetwork sim
  timers : sim.timers = []
  follows : sim.Follows (base.fluid records) records

namespace Flowing

/-- A flow that has arrived is running if it has started and is not retired. -/
theorem running_iff (flowing : base.Flowing sim records) (known : records[ref]? = some record) :
    ref ∈ sim.state.runningFlows ↔ ref ∉ sim.state.retiredFlows ∧ record.ts ≤ sim.ts := by
  have kept := flowing.represented.kept
  have ts := (flowing.carries.bears known).ts
  constructor
  · intro running
    exact ⟨fun retired => kept.not_running retired running, ts ▸ flowing.begun ref running⟩
  · rintro ⟨active, started⟩
    have lt : ref < sim.state.nextRef :=
      flowing.carries.count ▸ (List.getElem?_eq_some_iff.mp known).1
    have placed := kept.ledger.mem_refs.mpr lt
    simp only [NetState.refs, List.mem_append] at placed
    rcases placed with (buffered | running) | retired
    · rcases List.mem_map.mp buffered with ⟨entry, mem, rfl⟩
      have later : sim.ts < record.ts := ts ▸ kept.ahead entry mem
      exact absurd started (not_le.mpr later)
    · exact running
    · exact absurd retired active

/-- A flow that has arrived is buffered if it starts later. -/
theorem buffered_iff (flowing : base.Flowing sim records) (known : records[ref]? = some record) :
    ref ∈ sim.state.buffered ↔ sim.ts < record.ts := by
  have kept := flowing.represented.kept
  have ts := (flowing.carries.bears known).ts
  constructor
  · intro buffered
    rcases List.mem_map.mp buffered with ⟨entry, mem, rfl⟩
    exact ts ▸ kept.ahead entry mem
  · intro later
    have lt : ref < sim.state.nextRef :=
      flowing.carries.count ▸ (List.getElem?_eq_some_iff.mp known).1
    have placed := kept.ledger.mem_refs.mpr lt
    simp only [NetState.refs, List.mem_append] at placed
    rcases placed with (buffered | running) | retired
    · exact buffered
    · have started : record.ts ≤ sim.ts := ts ▸ flowing.begun ref running
      exact absurd started (not_le.mpr later)
    · have ended := flowing.follows.rests known retired
      exact absurd (ended.1.started.trans ended.2) (not_le.mpr later)

/-- What the turn of a step knows of the time up to which it moves on. -/
structure Until (sim : Simulator) (next : Timestamp) : Prop where
  later : sim.ts ≤ next
  ready : ∀ entry ∈ sim.state.flowBufs, next ≤ (sim.state.arena entry.2).ts
  moves : ∀ ref ∈ sim.state.runningFlows, 0 < (sim.state.arena ref).speed ∧
    next ≤ sim.ts + (sim.state.arena ref).remainingTime

/-- Unless time stands still, a running flow lacks something. -/
theorem lacks (flowing : base.Flowing sim records) (until_ : Until sim next)
    (moving : sim.ts < next) (known : records[ref]? = some record)
    (running : ref ∈ sim.state.runningFlows) :
    (base.fluid records).sent sim.ts record < record.flow.bytes := by
  have remains : 0 < (sim.state.arena ref).remainingTime :=
    Nat.pos_of_lt_add_right (moving.trans_le (until_.moves ref running).2)
  have lacking := FlowState.lacks_of_remaining (until_.moves ref running).1 remains
  rw [zero_nsmul, add_zero, (flowing.follows.sends known).sent,
    (flowing.carries.bears known).bytes] at lacking
  exact lacking

/-- Unless time stands still, the active flows are the running ones. -/
theorem active_eq (flowing : base.Flowing sim records) (until_ : Until sim next)
    (moving : sim.ts < next) :
    (base.fluid records).active sim.ts = sim.runningRecords records := by
  ext record
  rw [Fluid.Load.mem_active, mem_fluid_jobs, fluid_start, fluid_size, runningRecords, mem_image]
  constructor
  · rintro ⟨mem, started, lacks⟩
    rcases List.getElem?_of_mem mem with ⟨ref, known⟩
    refine ⟨ref, List.mem_toFinset.mpr ((flowing.running_iff known).mpr ⟨?_, started⟩),
      Carries.getD_eq known⟩
    intro retired
    have ended := flowing.follows.rests known retired
    exact absurd (ended.1.complete_of_le ended.2) lacks.not_ge
  · rintro ⟨ref, running, rfl⟩
    rw [List.mem_toFinset] at running
    rcases flowing.carries.exists_record (flowing.represented.kept.ledger.running_lt running) with
      ⟨record, known⟩
    rw [Carries.getD_eq known]
    exact ⟨List.mem_of_getElem? known, ((flowing.running_iff known).mp running).2,
      flowing.lacks until_ moving known running⟩

/-- No flow starts and none completes until the next time. -/
theorem steady (flowing : base.Flowing sim records) (until_ : Until sim next)
    (paces : base.Paces sim records) :
    (base.fluid records).Steady sim.ts (next - sim.ts) where
  starts record mem := by
    rw [mem_fluid_jobs] at mem
    rw [fluid_start, Nat.add_sub_cancel' until_.later]
    rcases List.getElem?_of_mem mem with ⟨ref, known⟩
    rcases Nat.lt_or_ge sim.ts record.ts with later | started
    · have buffered := (flowing.buffered_iff known).mpr later
      rcases List.mem_map.mp buffered with ⟨entry, mem, rfl⟩
      exact .inr ((flowing.carries.bears known).ts ▸ until_.ready entry mem)
    · exact .inl started
  lacks record active elapsed before := by
    have moving : sim.ts < next := Nat.lt_of_sub_pos (Nat.zero_lt_of_lt before)
    have same := flowing.active_eq until_ moving
    rw [same, runningRecords, mem_image] at active
    rcases active with ⟨ref, running, rfl⟩
    rw [List.mem_toFinset] at running
    rcases flowing.carries.exists_record (flowing.represented.kept.ledger.running_lt running) with
      ⟨record, known⟩
    have soon : elapsed < (sim.state.arena ref).remainingTime :=
      before.trans_le (Nat.sub_le_iff_le_add'.mpr (until_.moves ref running).2)
    have lacking := FlowState.lacks_of_remaining (until_.moves ref running).1 soon
    rw [Carries.getD_eq known, same, fluid_rate, fluid_size, ← paces running known,
      ← (flowing.follows.sends known).sent, ← (flowing.carries.bears known).bytes]
    exact lacking

/-- Until the next time the load grants a running flow the rate that the simulator computed. -/
theorem rate_eq (flowing : base.Flowing sim records) (until_ : Until sim next)
    (paces : base.Paces sim records)
    (running : ref ∈ sim.state.runningFlows) (known : records[ref]? = some record)
    {t : Timestamp} (after : sim.ts ≤ t) (before : t < next) :
    (base.fluid records).rateAt t record = bytesPerNs (sim.state.arena ref).speed := by
  have moving : sim.ts < next := after.trans_lt before
  have constant := (flowing.steady until_ paces).rateAt (Nat.sub_lt_sub_right after before) record
  have active : record ∈ (base.fluid records).active sim.ts := by
    rw [flowing.active_eq until_ moving, runningRecords, mem_image]
    exact ⟨ref, List.mem_toFinset.mpr running, Carries.getD_eq known⟩
  rw [Nat.add_sub_cancel' after] at constant
  rw [constant, Fluid.Load.rateAt_of_active active, fluid_rate, flowing.active_eq until_ moving,
    paces running known]

end Flowing

theorem Carries.congr (carries : sim.Carries records)
    (same : NetState.SameFlows sim.state sim'.state) (network : sim.SameNetwork sim') :
    sim'.Carries records := by
  rw [Carries, network.pathOf]
  exact NetState.Carries.congr carries same

/-- The speed of a retired flow is zero from its end on. -/
theorem Represented.still (represented : sim.Represented) (retired : ref ∈ sim.state.retiredFlows)
    {t : Timestamp} (after : (sim.state.arena ref).endTs ≤ t) :
    speedAt (sim.state.arena ref).speedHistory t = 0 := by
  have stopped := represented.kept.ordered.stopped ref retired
  cases history : (sim.state.arena ref).speedHistory with
  | nil => rfl
  | cons entry rest =>
      rw [history] at stopped
      rcases Option.some.inj stopped with rfl
      exact speedAt_cons_of_le after

/-- What moving on to the next time does to the flows. -/
structure Steps (sim sim' : Simulator) (next : Timestamp) : Prop where
  ts : sim'.ts = next
  retired : sim'.state.retiredFlows =
    (sim.state.completing sim.ts (next - sim.ts)).reverse ++ sim.state.retiredFlows
  running : ∀ ref ∈ sim.state.runningFlows,
    sim'.state.arena ref = NetState.stepFlow sim.ts (next - sim.ts) (sim.state.arena ref)
  others : ∀ ref, ref ∉ sim.state.runningFlows → sim'.state.arena ref = sim.state.arena ref
  network : sim.SameNetwork sim'
  timers : sim'.timers = sim.timers

theorem proceed_steps {compFlows : List TraceRecord} (nodup : sim.state.runningFlows.Nodup)
    (later : sim.ts ≤ next)
    (run : sim.proceed platform (next - sim.ts) = .ok (sim', compFlows)) : Steps sim sim' next := by
  simp only [proceed, bind_eq_ok, pure_eq_ok, Prod.exists, Prod.mk.injEq] at run
  rcases run with ⟨middle, comp, completed, final, emitted, rfl, _⟩
  rcases (NetState.completeFlows_eq_ok nodup completed).1 with ⟨_, _, rfl⟩
  rcases NetState.emitReadyFlows_refs emitted with ⟨_, retired, arena, _, _⟩
  refine ⟨Nat.add_sub_cancel' later, retired, ?_, ?_, ⟨rfl, rfl, rfl⟩, rfl⟩
  · intro ref mem
    dsimp only
    rw [arena]
    exact if_pos mem
  · intro ref notMem
    dsimp only
    rw [arena]
    exact if_neg notMem

namespace Flowing

/-- A running flow before it is looked at whether it completes. -/
theorem sends_advance (flowing : base.Flowing sim records) (until_ : Until sim next)
    (paces : base.Paces sim records) (running : ref ∈ sim.state.runningFlows)
    (known : records[ref]? = some record) :
    Sends (base.fluid records) ((sim.state.arena ref).advance sim.ts (next - sim.ts)) record next :=
  (flowing.follows.sends known).advance until_.later fun _ after before =>
    flowing.rate_eq until_ paces running known after before

/-- A running flow completes when the load has granted it its size. -/
theorem completesIn_iff (flowing : base.Flowing sim records) (until_ : Until sim next)
    (paces : base.Paces sim records) (running : ref ∈ sim.state.runningFlows)
    (known : records[ref]? = some record) :
    NetState.completesIn sim.ts (next - sim.ts) (sim.state.arena ref) = true ↔
      (record.flow.bytes : ℚ) ≤ (base.fluid records).sent next record := by
  have moves : 0 < ((sim.state.arena ref).advance sim.ts (next - sim.ts)).speed :=
    (until_.moves ref running).1
  have bytes : ((sim.state.arena ref).advance sim.ts (next - sim.ts)).flow.bytes =
      record.flow.bytes := (flowing.carries.bears known).bytes
  rw [NetState.completesIn, FlowState.isCompleted_iff moves,
    (flowing.sends_advance until_ paces running known).sent, bytes]

/-- A flow that neither runs nor has retired starts at the next time or later. -/
theorem starts_later (flowing : base.Flowing sim records) (until_ : Until sim next)
    (known : records[ref]? = some record) (idle : ref ∉ sim.state.runningFlows)
    (active : ref ∉ sim.state.retiredFlows) : sim.ts < record.ts ∧ next ≤ record.ts := by
  have later : sim.ts < record.ts := by
    by_contra started
    exact idle ((flowing.running_iff known).mpr ⟨active, not_lt.mp started⟩)
  have buffered := (flowing.buffered_iff known).mpr later
  rcases List.mem_map.mp buffered with ⟨entry, mem, rfl⟩
  exact ⟨later, (flowing.carries.bears known).ts ▸ until_.ready entry mem⟩

theorem sends_steps (flowing : base.Flowing sim records) (until_ : Until sim next)
    (paces : base.Paces sim records) (steps : Steps sim sim' next)
    (known : records[ref]? = some record) :
    Sends (base.fluid records) (sim'.state.arena ref) record next := by
  have follows := flowing.follows
  by_cases running : ref ∈ sim.state.runningFlows
  · have moved := flowing.sends_advance until_ paces running known
    rw [steps.running ref running, NetState.stepFlow]
    split
    · rw [Nat.add_sub_cancel' until_.later]
      exact moved.retire
    · exact moved
  · rw [steps.others ref running]
    by_cases retired : ref ∈ sim.state.retiredFlows
    · have ended := follows.rests known retired
      refine (follows.sends known).rest until_.later (fun t after _ => ?_) fun t after => ?_
      · exact Fluid.Load.rateAt_of_size_le (ended.1.complete_of_le (ended.2.trans after))
      · exact flowing.represented.still retired (ended.2.trans after)
    · have early := flowing.starts_later until_ known running retired
      refine (follows.sends known).rest until_.later (fun t _ before => ?_) fun t _ => ?_
      · exact Fluid.Load.rateAt_of_lt_start (before.trans_le early.2)
      · rw [follows.waits known early.1]
        rfl

/-- A flow that completes at the next time finishes then. -/
theorem finishes_steps (flowing : base.Flowing sim records) (until_ : Until sim next)
    (paces : base.Paces sim records) (running : ref ∈ sim.state.runningFlows)
    (known : records[ref]? = some record)
    (completes : NetState.completesIn sim.ts (next - sim.ts) (sim.state.arena ref) = true) :
    (base.fluid records).Finishes record next where
  started := ((flowing.running_iff known).mp running).2.trans until_.later
  complete := (flowing.completesIn_iff until_ paces running known).mp completes
  first earlier after before := by
    have started := (flowing.running_iff known).mp running
    rcases Nat.lt_or_ge earlier sim.ts with past | now
    · rcases flowing.follows.runs known started.1 started.2 with lacks | ⟨_, same⟩
      · exact Fluid.Load.lacks_before lacks past.le
      · rw [fluid_start, same] at after
        exact absurd past (not_lt.mpr after)
    · have moving := now.trans_lt before
      have steady := flowing.steady until_ paces
      have active : record ∈ (base.fluid records).active sim.ts := by
        rw [flowing.active_eq until_ moving, runningRecords, mem_image]
        exact ⟨ref, List.mem_toFinset.mpr running, Carries.getD_eq known⟩
      have elapsed := Nat.sub_lt_sub_right now before
      rw [← Nat.add_sub_cancel' now, (steady.sent elapsed.le record).1,
        Fluid.Load.rateAt_of_active active]
      exact steady.lacks record active _ elapsed

/-- Moving on at the rates of the load follows the load. -/
theorem steps (flowing : base.Flowing sim records) (until_ : Until sim next)
    (paces : base.Paces sim records) (steps : Steps sim sim' next) :
    sim'.Follows (base.fluid records) records where
  sends known := steps.ts ▸ flowing.sends_steps until_ paces steps known
  waits {ref record} known later := by
    rw [steps.ts] at later
    have waits := until_.later.trans_lt later
    have idle : ref ∉ sim.state.runningFlows := fun running =>
      absurd ((flowing.running_iff known).mp running).2 (not_le.mpr waits)
    rw [steps.others ref idle]
    exact flowing.follows.waits known waits
  runs {ref record} known active started := by
    rw [steps.ts] at started ⊢
    rw [steps.retired, List.mem_append, not_or, List.mem_reverse] at active
    by_cases running : ref ∈ sim.state.runningFlows
    · refine .inl (not_le.mp fun complete => active.1 ?_)
      exact List.mem_filter.mpr
        ⟨running, (flowing.completesIn_iff until_ paces running known).mpr complete⟩
    · have now : record.ts = next :=
        le_antisymm started (flowing.starts_later until_ known running active.2).2
      rw [Fluid.Load.sent_eq_zero (by rw [fluid_start, now])]
      rcases Nat.eq_zero_or_pos record.flow.bytes with none | some
      · exact .inr ⟨none, now⟩
      · exact .inl (by exact_mod_cast some)
  rests {ref record} known mem := by
    rw [steps.ts]
    rw [steps.retired, List.mem_append, List.mem_reverse] at mem
    rcases mem with new | old
    · rcases List.mem_filter.mp new with ⟨running, completes⟩
      have ends : (sim'.state.arena ref).endTs = next := by
        rw [steps.running ref running, endTs_stepFlow completes, Nat.add_sub_cancel' until_.later]
      rw [ends]
      exact ⟨flowing.finishes_steps until_ paces running known completes, le_rfl⟩
    · have idle : ref ∉ sim.state.runningFlows := flowing.represented.kept.not_running old
      have ended := flowing.follows.rests known old
      rw [steps.others ref idle]
      exact ⟨ended.1, ended.2.trans until_.later⟩

end Flowing

section Turns

variable {limit : Option Timestamp} {times : List Timestamp}

/-- What the next time is computed from. -/
theorem Represented.until_ (represented : sim.Represented)
    (unlimited : ¬limit.any (· ≤ sim.ts) = true)
    (candidates : sim.nextTimes platform limit = .ok times) (first : times.min? = some next) :
    Flowing.Until sim next := by
  rcases represented.nextTime unlimited candidates first with ⟨later, ready, _⟩
  refine ⟨later, ready, fun ref running => ?_⟩
  simp only [nextTimes, bind_eq_ok, pure_eq_ok] at candidates
  rcases candidates with ⟨completions, timed, rfl⟩
  have each : List.Forall₂ (fun ref time => 0 < (sim.state.arena ref).speed ∧
      (sim.state.arena ref).remainingTime = time) sim.state.runningFlows completions := by
    refine mapM_forall₂ (fun ref _ time timed => ?_) timed
    simp only [FlowState.timeToComplete, bind_eq_ok, assert_eq_ok, pure_eq_ok] at timed
    exact ⟨timed.choose_spec.1, timed.choose_spec.2⟩
  rcases List.forall₂_iff_get.mp each with ⟨length, related⟩
  rcases List.mem_iff_get.mp running with ⟨position, rfl⟩
  have bound : position.1 < completions.length := length ▸ position.2
  rcases related position.1 position.2 bound with ⟨moves, time⟩
  refine ⟨moves, ?_⟩
  refine (List.min?_eq_some_iff.mp first).2 _ ?_
  simp only [List.mem_append, List.mem_map]
  refine .inl (.inl (.inl ⟨_, List.get_mem completions ⟨position.1, bound⟩, ?_⟩))
  rw [← time, Nat.add_comm]

namespace Flowing

/-- New rates change nothing that the load speaks about. -/
theorem of_core {arena : Arena} (flowing : base.Flowing sim records)
    (core : ∀ ref, (arena ref).core = (sim.state.arena ref).core) :
    base.Flowing { sim with state := { sim.state with arena := arena } } records := by
  have history : ∀ ref, (arena ref).speedHistory = (sim.state.arena ref).speedHistory :=
    fun ref => by simpa using congrArg FlowState.speedHistory (core ref)
  have bytes : ∀ ref, (arena ref).bytesSent = (sim.state.arena ref).bytesSent :=
    fun ref => by simpa using congrArg FlowState.bytesSent (core ref)
  have ts : ∀ ref, (arena ref).ts = (sim.state.arena ref).ts :=
    fun ref => by simpa using congrArg FlowState.ts (core ref)
  have same : NetState.SameFlows sim.state { sim.state with arena := arena } :=
    sameFlows_of_core core
  refine ⟨flowing.represented.of_core core, ?_, flowing.holds.congr same,
    flowing.carries.congr same ⟨rfl, rfl, rfl⟩, flowing.network.trans ⟨rfl, rfl, rfl⟩,
    flowing.timers, ?_⟩
  · intro ref mem
    dsimp only
    rw [ts ref]
    exact flowing.begun ref mem
  · refine ⟨fun {ref} _ known => ?_, fun {ref} _ known later => ?_, flowing.follows.runs,
      fun {ref} _ known retired => ?_⟩
    · exact (flowing.follows.sends known).congr (history ref) (bytes ref)
    · exact (history ref).trans (flowing.follows.waits known later)
    · have ends : (arena ref).endTs = (sim.state.arena ref).endTs := by
        rw [FlowState.endTs, history ref, ← FlowState.endTs]
      dsimp only
      rw [ends]
      exact flowing.follows.rests known retired

/-- Filling finds the rates of the load. -/
theorem converged (flowing : base.Flowing sim records) (distinct : records.Nodup)
    (perFlow : base.setting.fairness = .perFlowMaxMin)
    (bandwidth : ∀ link, base.cluster.bandwidth link ≤ u64Max)
    (run : sim.maxMinFairnessConverge platform = .ok filled) :
    base.Flowing filled records ∧ base.Paces filled records := by
  have ledger := flowing.represented.kept.ledger
  have allocatable : sim.Allocatable :=
    ⟨flowing.represented.kept.indexed, ledger.running_nodup, flowing.network.setting ▸ perFlow,
      fun ref mem => flowing.holds.maxRate ref (ledger.running_lt mem),
      fun link => flowing.network.cluster ▸ bandwidth link⟩
  have speeds : ∀ {ref record}, ref ∈ sim.state.runningFlows → records[ref]? = some record →
      (filled.state.arena ref).speed = sim.maxMinSpeed (sim.runningRecords records) record :=
    fun running known => flowing.carries.speed_eq distinct allocatable
      (fun _ mem => ledger.running_lt mem) run running known
  have network := flowing.network
  rcases maxMinFairnessConverge_eq_ok run with ⟨arena, rfl, core⟩
  refine ⟨flowing.of_core core, fun {ref record} running known => ?_⟩
  rw [speeds running known, maxMinSpeed, maxMinSpeed, network.pathOf, network.cluster,
    network.setting]
  rfl

/-- Moving on to the next time. -/
theorem proceed {compFlows : List TraceRecord} (flowing : base.Flowing sim records)
    (paces : base.Paces sim records) (unlimited : ¬limit.any (· ≤ sim.ts) = true)
    (candidates : sim.nextTimes platform limit = .ok times) (first : times.min? = some next)
    (run : sim.proceed platform (next - sim.ts) = .ok (sim', compFlows)) :
    base.Flowing sim' records := by
  have represented := flowing.represented
  have until_ := represented.until_ unlimited candidates first
  have moved := represented.proceed_next unlimited candidates first run
  have begun := (proceed_ends represented flowing.begun run).begun
  have taken := proceed_steps represented.kept.ledger.running_nodup until_.later run
  exact ⟨moved.1, begun, flowing.holds.congr moved.2, flowing.carries.congr moved.2 taken.network,
    flowing.network.trans taken.network, taken.timers.trans flowing.timers,
    flowing.steps until_ paces taken⟩

theorem turns (flowing : base.Flowing sim records) (distinct : records.Nodup)
    (perFlow : base.setting.fairness = .perFlowMaxMin)
    (bandwidth : ∀ link, base.cluster.bandwidth link ≤ u64Max)
    (turns : Relation.ReflTransGen (Turn platform limit) sim sim') :
    base.Flowing sim' records := by
  induction turns with
  | refl => exact flowing
  | tail _ last ih =>
      cases last with
      | turn unlimited converge candidates first run =>
          rcases ih.converged distinct perFlow bandwidth converge with ⟨filled, paces⟩
          have ts := (ih.represented.converged converge).2.1
          exact filled.proceed paces (ts ▸ unlimited) candidates first run

/-- A step follows the load. -/
theorem maxMinFairness {fuel : ℕ} {kind : AppEventKind} (flowing : base.Flowing sim records)
    (distinct : records.Nodup) (perFlow : base.setting.fairness = .perFlowMaxMin)
    (bandwidth : ∀ link, base.cluster.bandwidth link ≤ u64Max)
    (run : Simulator.maxMinFairness platform limit fuel sim = .ok (sim', kind)) :
    base.Flowing sim' records := by
  rcases exists_turns_of_run run with ⟨last, turns, halt⟩
  have isLast := flowing.turns distinct perFlow bandwidth turns
  cases halt with
  | limited _ => exact isLast
  | idle _ => exact isLast
  | @fired filled _ _ timer _ converge _ _ alert _ =>
      have none : filled.timers = [] :=
        (isLast.represented.converged converge).2.2.1.trans isLast.timers
      have mem := (platform.order_perm 1 _).subset (List.argmin_mem alert)
      rw [none] at mem
      exact absurd mem List.not_mem_nil
  | completed unlimited converge candidates first proceeded _ =>
      rcases isLast.converged distinct perFlow bandwidth converge with ⟨filled, paces⟩
      have ts := (isLast.represented.converged converge).2.1
      exact filled.proceed paces (ts ▸ unlimited) candidates first proceeded

end Flowing

end Turns

end Simulator

end Phantora.Netsim
