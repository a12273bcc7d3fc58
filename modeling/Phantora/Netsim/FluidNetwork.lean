import Mathlib.Algebra.BigOperators.Group.Finset.Basic
import Phantora.Lib.Fluid
import Phantora.Netsim.Histories
import Phantora.Netsim.Replay

/-!
# The fluid schedule of the network

The flows that have arrived are a fluid load: at every nanosecond the flows that
have started and lack bytes share the links by progressive filling. The rates
that the simulator computes are those of the load, whatever the order in which it
keeps flows and links.
-/

namespace Phantora.Netsim

open Outcome

instance : Inhabited TraceRecord := ⟨⟨0, default, none⟩⟩

namespace Filling

/-- More fuel does not change what the loop returns. -/
theorem fillLoop_mono {cluster : Cluster} {fairness : FairnessModel} {running : List FlowRef}
    {linkFlows : List (LinkIx × FlowSet)} {fuel fuel' : ℕ} {arena arena' : Arena}
    (run : fillLoop cluster fairness running linkFlows fuel arena = .ok arena')
    (more : fuel ≤ fuel') :
    fillLoop cluster fairness running linkFlows fuel' arena = .ok arena' := by
  induction fuel generalizing fuel' arena with
  | zero => cases run
  | succ fuel ih =>
      cases fuel' with
      | zero => omega
      | succ fuel' =>
          rw [fillLoop] at run ⊢
          split at run
          · rename_i goes
            rw [bind_eq_ok] at run
            rcases run with ⟨middle, round, rest⟩
            rw [if_pos goes, bind_eq_ok]
            exact ⟨middle, round, ih rest (Nat.le_of_succ_le_succ more)⟩
          · rename_i done
            rw [if_neg done]
            exact run

end Filling

/-- The flows that share each link, when those of `active` run. -/
def sharing (cluster : Cluster) (path : TraceRecord → List LinkIx) (active : Finset TraceRecord) :
    WaterFilling.Network TraceRecord LinkIx where
  capacity := cluster.bandwidth
  crossing link := ∑ record ∈ active, Multiset.replicate ((path record).count link) record

/-- Before filling a flow without links has its rate, the others are at rest. -/
def atRest (loopbackSpeed : ℕ) (path : TraceRecord → List LinkIx) :
    WaterFilling.State TraceRecord :=
  ⟨fun record => if (path record).isEmpty then loopbackSpeed else 0,
    fun record => (path record).isEmpty⟩

namespace Simulator

/-- The max-min rate of a flow when those of `active` run. -/
noncomputable def maxMinSpeed (sim : Simulator) (active : Finset TraceRecord)
    (record : TraceRecord) : ℕ :=
  WaterFilling.endRate (sharing sim.cluster sim.pathOf active)
    (atRest sim.setting.loopbackSpeed sim.pathOf) record

/-- The load that the flows of the records put on the network. -/
noncomputable def fluid (sim : Simulator) (records : List TraceRecord) :
    Fluid.Load TraceRecord ℚ where
  jobs := records.toFinset
  start := TraceRecord.ts
  size record := record.flow.bytes
  rate active record := bytesPerNs (sim.maxMinSpeed active record)

/-- The simulator is the same but for its time, its timers and the state of the network. -/
structure SameNetwork (sim sim' : Simulator) : Prop where
  cluster : sim'.cluster = sim.cluster
  setting : sim'.setting = sim.setting
  hostMapping : sim'.hostMapping = sim.hostMapping

variable {sim sim' : Simulator} {platform : Platform} {records : List TraceRecord}

theorem SameNetwork.refl (sim : Simulator) : sim.SameNetwork sim :=
  ⟨rfl, rfl, rfl⟩

theorem SameNetwork.trans {sim'' : Simulator} (left : sim.SameNetwork sim')
    (right : sim'.SameNetwork sim'') : sim.SameNetwork sim'' :=
  ⟨right.cluster.trans left.cluster, right.setting.trans left.setting,
    right.hostMapping.trans left.hostMapping⟩

theorem SameNetwork.pathOf (same : sim.SameNetwork sim') : sim'.pathOf = sim.pathOf := by
  funext record
  simp only [Simulator.pathOf, routeOf, same.hostMapping, same.cluster]

theorem SameNetwork.fluid (same : sim.SameNetwork sim') (records : List TraceRecord) :
    sim'.fluid records = sim.fluid records := by
  simp only [Simulator.fluid, maxMinSpeed, same.pathOf, same.cluster, same.setting]

/-- Filling that succeeds is an end of progressive filling, however much fuel it had. -/
theorem Allocatable.converged (allocatable : sim.Allocatable)
    (run : sim.maxMinFairnessConverge platform = .ok sim') :
    ∃ s, Relation.ReflTransGen (WaterFilling.Fills
        (Filling.network sim.cluster sim.state.linkFlows))
        (Filling.atStart sim.setting.loopbackSpeed sim.state.arena) s ∧
      Filling.Simulates sim.state.runningFlows sim'.state.arena s ∧
      WaterFilling.Done (Filling.network sim.cluster sim.state.linkFlows) s := by
  have enough : sim.state.runningFlows.length <
      ({ platform with fuel := platform.fuel + sim.state.runningFlows.length + 1 } :
        Platform).fuel := by
    dsimp only
    omega
  rcases allocatable.converge enough with ⟨arena, s, run', fills, simulates, frozen⟩
  have same : sim'.state.arena = arena := by
    simp only [maxMinFairnessConverge, bind_eq_ok, pure_eq_ok] at run run'
    rcases run with ⟨filled, loop, rfl⟩
    rcases run' with ⟨filled', loop', equal⟩
    have more : platform.fuel ≤ platform.fuel + sim.state.runningFlows.length + 1 := by omega
    have filledSame : filled = filled' :=
      Except.ok.inj ((Filling.fillLoop_mono loop more).symm.trans loop')
    have isArena : filled' = arena := congrArg (fun sim : Simulator => sim.state.arena) equal
    exact filledSame.trans isArena
  refine ⟨s, fills, same ▸ simulates, fun link => ?_⟩
  rw [WaterFilling.active, Multiset.countP_eq_zero]
  intro ref crosses
  simp [frozen ref (allocatable.wired.running link ref (Multiset.mem_coe.mp crosses))]

/-- The flow state is that of the flow of the record. -/
structure Bears (sim : Simulator) (f : FlowState) (record : TraceRecord) : Prop where
  ts : f.ts = record.ts
  id : f.flow.id = record.flow.id
  bytes : f.flow.bytes = record.flow.bytes
  path : f.route.path = sim.pathOf record

/-- The flows are those of the records, in this order. -/
def Carries (sim : Simulator) (records : List TraceRecord) : Prop :=
  sim.state.Carries sim.pathOf records

/-- The records of the running flows. -/
def runningRecords (sim : Simulator) (records : List TraceRecord) : Finset TraceRecord :=
  sim.state.runningFlows.toFinset.image fun ref => records.getD ref default

namespace Carries

theorem count (carries : sim.Carries records) : sim.state.nextRef = records.length := by
  simpa using congrArg List.length carries

theorem bears (carries : sim.Carries records) {ref : FlowRef} {record : TraceRecord}
    (known : records[ref]? = some record) : sim.Bears (sim.state.arena ref) record := by
  have lt := (List.getElem?_eq_some_iff.mp known).1
  have same := congrArg (fun flows => flows[ref]?) carries
  simp only [List.getElem?_map, known, Option.map_some] at same
  rw [List.getElem?_range (carries.count ▸ lt), Option.map_some, Option.some_inj] at same
  simp only [Prod.mk.injEq] at same
  exact ⟨same.1, same.2.1, same.2.2.1, same.2.2.2⟩

/-- Each flow bears the record with its number. -/
theorem of_bears (count : sim.state.nextRef = records.length)
    (bears : ∀ {ref : FlowRef} {record}, records[ref]? = some record →
      sim.Bears (sim.state.arena ref) record) : sim.Carries records := by
  refine List.ext_getElem (by simp [count]) fun ref lt lt' => ?_
  rw [List.length_map] at lt'
  have known := bears (List.getElem?_eq_getElem lt')
  simp [known.ts, known.id, known.bytes, known.path]

theorem exists_record (carries : sim.Carries records) {ref : FlowRef}
    (lt : ref < sim.state.nextRef) : ∃ record, records[ref]? = some record :=
  ⟨_, List.getElem?_eq_getElem (carries.count ▸ lt)⟩

theorem getD_eq {ref : FlowRef} {record : TraceRecord} (known : records[ref]? = some record) :
    records.getD ref default = record := by
  rw [List.getD_eq_getElem?_getD, known, Option.getD_some]

/-- The records tell the flows apart. -/
theorem injective (carries : sim.Carries records) (distinct : records.Nodup) {ref ref' : FlowRef}
    (lt : ref < sim.state.nextRef) (lt' : ref' < sim.state.nextRef)
    (same : records.getD ref default = records.getD ref' default) : ref = ref' := by
  rcases carries.exists_record lt with ⟨record, known⟩
  rcases carries.exists_record lt' with ⟨record', known'⟩
  rw [getD_eq known, getD_eq known'] at same
  exact (List.getElem?_inj (carries.count ▸ lt) distinct).mp (known.trans (same ▸ known'.symm))

/-- The links of the simulator are shared as the load says. -/
theorem renames (carries : sim.Carries records) (distinct : records.Nodup)
    (indexed : sim.state.Indexed) (issued : ∀ ref ∈ sim.state.runningFlows,
      ref < sim.state.nextRef) :
    WaterFilling.Renames (fun ref => records.getD ref default)
      (Filling.network sim.cluster sim.state.linkFlows)
      (sharing sim.cluster sim.pathOf (sim.runningRecords records)) where
  capacity := rfl
  crossing link := by
    have flows : (NetState.flowsOn sim.state.linkFlows link : Multiset FlowRef) =
        ∑ ref ∈ sim.state.runningFlows.toFinset,
          Multiset.replicate ((sim.state.arena ref).route.path.count link) ref := by
      ext ref
      rw [Multiset.coe_count, indexed.counts, Multiset.count_sum']
      simp [Multiset.count_replicate, Finset.sum_ite_eq']
    have injOn : ∀ ref ∈ sim.state.runningFlows.toFinset,
        ∀ ref' ∈ sim.state.runningFlows.toFinset,
        records.getD ref default = records.getD ref' default → ref = ref' := by
      intro ref mem ref' mem' same
      exact carries.injective distinct (issued ref (List.mem_toFinset.mp mem))
        (issued ref' (List.mem_toFinset.mp mem')) same
    have renamed := map_sum (Multiset.mapAddMonoidHom fun ref => records.getD ref default)
      (fun ref => Multiset.replicate ((sim.state.arena ref).route.path.count link) ref)
      sim.state.runningFlows.toFinset
    simp only [Multiset.coe_mapAddMonoidHom, Multiset.map_replicate] at renamed
    rw [Filling.network, sharing, runningRecords]
    dsimp only
    rw [flows, renamed, Finset.sum_image injOn]
    refine Finset.sum_congr rfl fun ref mem => ?_
    rcases carries.exists_record (issued ref (List.mem_toFinset.mp mem)) with ⟨record, known⟩
    rw [getD_eq known, (carries.bears known).path]
  injective {link link' ref ref'} mem mem' same := by
    have running := (indexed.mem_flowsOn.mp (Multiset.mem_coe.mp mem)).1
    have running' := (indexed.mem_flowsOn.mp (Multiset.mem_coe.mp mem')).1
    exact carries.injective distinct (issued ref running) (issued ref' running') same

/-- Before filling the flows are at rest as the load says. -/
theorem agrees (carries : sim.Carries records) (indexed : sim.state.Indexed)
    (issued : ∀ ref ∈ sim.state.runningFlows, ref < sim.state.nextRef) :
    WaterFilling.Agrees (fun ref => records.getD ref default)
      (Filling.network sim.cluster sim.state.linkFlows)
      (Filling.atStart sim.setting.loopbackSpeed sim.state.arena)
      (atRest sim.setting.loopbackSpeed sim.pathOf) := by
  have paths : ∀ link, ∀ ref ∈ (Filling.network sim.cluster sim.state.linkFlows).crossing link,
      sim.pathOf (records.getD ref default) = (sim.state.arena ref).route.path := by
    intro link ref mem
    have running := (indexed.mem_flowsOn.mp (Multiset.mem_coe.mp mem)).1
    rcases carries.exists_record (issued ref running) with ⟨record, known⟩
    rw [getD_eq known, (carries.bears known).path]
  refine ⟨fun link ref mem => ?_, fun link ref mem => ?_⟩
  · rw [atRest, Filling.atStart]
    dsimp only
    rw [paths link ref mem, FlowState.isLoopback]
  · rw [atRest, Filling.atStart]
    dsimp only
    rw [paths link ref mem, FlowState.isLoopback]

/-- The rates that the simulator computes are those of the load. -/
theorem speed_eq (carries : sim.Carries records) (distinct : records.Nodup)
    (allocatable : sim.Allocatable) (issued : ∀ ref ∈ sim.state.runningFlows,
      ref < sim.state.nextRef) (run : sim.maxMinFairnessConverge platform = .ok sim')
    {ref : FlowRef} {record : TraceRecord} (running : ref ∈ sim.state.runningFlows)
    (known : records[ref]? = some record) :
    (sim'.state.arena ref).speed = sim.maxMinSpeed (sim.runningRecords records) record := by
  rcases allocatable.converged run with ⟨s, fills, simulates, done⟩
  have path := (carries.bears known).path
  rw [simulates.speed ref running, maxMinSpeed]
  by_cases loopback : (sim.state.arena ref).isLoopback = true
  · have isLoopback : (sim.pathOf record).isEmpty = true := by
      rw [← path]
      exact loopback
    have isFrozen : (atRest sim.setting.loopbackSpeed sim.pathOf).frozen record = true := isLoopback
    rw [WaterFilling.endRate_of_frozen isFrozen, (WaterFilling.frozen_fills fills loopback).2]
    simp only [Filling.atStart, atRest, loopback, isLoopback]
  · have nonempty : (sim.state.arena ref).route.path ≠ [] := by
      simpa [FlowState.isLoopback] using loopback
    rcases List.exists_mem_of_ne_nil _ nonempty with ⟨link, onPath⟩
    have crosses : ref ∈ (Filling.network sim.cluster sim.state.linkFlows).crossing link :=
      Multiset.mem_coe.mpr (allocatable.indexed.mem_flowsOn.mpr ⟨running, onPath⟩)
    have renames := carries.renames distinct allocatable.indexed issued
    rw [← renames.endRate_eq (carries.agrees allocatable.indexed issued) fills done crosses,
      getD_eq known]

end Carries

end Simulator

end Phantora.Netsim
