import Mathlib.Algebra.BigOperators.Field
import Mathlib.Algebra.BigOperators.Fin
import Phantora.Netsim.FluidRuns

/-!
# Traffic on a link

At no time do the flows on a link move faster together than the link allows, and
so they have never sent more together than the link can carry in the time there
was. This holds of what the simulator keeps, whatever has been rolled back.
-/

namespace Phantora.Netsim

open Outcome Finset

theorem bytesPerNs_sum {ι : Type} (s : Finset ι) (speed : ι → ℚ) :
    bytesPerNs (∑ i ∈ s, speed i) = ∑ i ∈ s, bytesPerNs (speed i) := by
  simp only [bytesPerNs, sum_div]

theorem bytesPerNs_mul (times speed : ℚ) : bytesPerNs (times * speed) =
    times * bytesPerNs speed := by
  simp only [bytesPerNs, mul_div_assoc]

theorem bytesPerNs_le_iff {speed speed' : ℚ} :
    bytesPerNs speed ≤ bytesPerNs speed' ↔ speed ≤ speed' := by
  rw [bytesPerNs, bytesPerNs, div_le_div_iff_of_pos_right (by norm_num),
    div_le_div_iff_of_pos_right (by norm_num)]

theorem mem_sharing_crossing {cluster : Cluster} {path : TraceRecord → List LinkIx}
    {active : Finset TraceRecord} {link : LinkIx} {record : TraceRecord}
    (crosses : record ∈ (sharing cluster path active).crossing link) : link ∈ path record := by
  rcases Multiset.mem_sum.mp crosses with ⟨other, _, mem⟩
  rcases Multiset.mem_replicate.mp mem with ⟨positive, rfl⟩
  exact List.count_pos_iff.mp (Nat.pos_of_ne_zero positive)

/-- Filling begins with the flows on links at rest. -/
theorem begins_sharing (cluster : Cluster) (path : TraceRecord → List LinkIx)
    (active : Finset TraceRecord) (loopbackSpeed : ℕ) :
    WaterFilling.Begins (sharing cluster path active) (atRest loopbackSpeed path) where
  fills link record crosses := by
    have nonempty := List.ne_nil_of_mem (mem_sharing_crossing crosses)
    simpa [atRest] using nonempty
  atRest record fills := by
    rw [atRest] at fills ⊢
    dsimp only at fills ⊢
    rw [fills]
    rfl

namespace Simulator

variable {platform : Platform} {base sim : Simulator} {records : List TraceRecord}

/-- The max-min rates fit the links. -/
theorem sum_maxMinSpeed_le (sim : Simulator) (active : Finset TraceRecord) (link : LinkIx) :
    ∑ record ∈ active, (sim.pathOf record).count link * sim.maxMinSpeed active record ≤
      sim.cluster.bandwidth link := by
  have feasible := (begins_sharing sim.cluster sim.pathOf active
    sim.setting.loopbackSpeed).endRate_feasible link
  have mapped := map_sum (Multiset.mapAddMonoidHom (sim.maxMinSpeed active))
    (fun record => Multiset.replicate ((sim.pathOf record).count link) record) active
  simp only [Multiset.coe_mapAddMonoidHom, Multiset.map_replicate] at mapped
  have summed := map_sum Multiset.sumAddMonoidHom (fun record =>
    Multiset.replicate ((sim.pathOf record).count link) (sim.maxMinSpeed active record)) active
  simp only [Multiset.coe_sumAddMonoidHom, Multiset.sum_replicate, nsmul_eq_mul,
    Nat.cast_id] at summed
  rw [← summed, ← mapped]
  exact feasible

/-- Whatever flows are active, they take no more than a link can carry. -/
theorem fluid_fits (base : Simulator) (records : List TraceRecord) (link : LinkIx) :
    ∀ active ⊆ (base.fluid records).jobs, ∑ record ∈ active,
      (base.pathOf record).count link • (base.fluid records).rate active record ≤
        bytesPerNs (base.cluster.bandwidth link) := by
  intro active _
  have whole : ∑ record ∈ active,
      (base.pathOf record).count link • (base.fluid records).rate active record =
      bytesPerNs (∑ record ∈ active,
        (base.pathOf record).count link * base.maxMinSpeed active record : ℕ) := by
    simp only [fluid_rate, Nat.cast_sum, Nat.cast_mul, bytesPerNs_sum, bytesPerNs_mul, nsmul_eq_mul]
  rw [whole, bytesPerNs_le_iff]
  exact_mod_cast base.sum_maxMinSpeed_le active link

/-- A sum over the flows is a sum over the jobs of the load. -/
theorem Carries.sum_eq {f : FlowRef → ℚ} {g : TraceRecord → ℚ} (carries : sim.Carries records)
    (distinct : records.Nodup)
    (same : ∀ {ref : FlowRef} {record}, records[ref]? = some record → f ref = g record) :
    ∑ ref ∈ range sim.state.nextRef, f ref = ∑ record ∈ (base.fluid records).jobs, g record := by
  rw [show (base.fluid records).jobs = records.toFinset from rfl, List.sum_toFinset g distinct,
    carries.count, ← Fin.sum_univ_eq_sum_range, ← Fin.sum_univ_fun_getElem]
  exact Finset.sum_congr rfl fun ref _ => same (List.getElem?_eq_getElem ref.2)

/-- The flows of a link have kept to its bandwidth at every time, and all that they have sent. -/
structure FitsLinks (sim : Simulator) : Prop where
  speed : ∀ link, ∀ t < sim.ts, ∑ ref ∈ range sim.state.nextRef,
    ((sim.state.arena ref).route.path.count link : ℚ) *
      speedAt (sim.state.arena ref).speedHistory t ≤ sim.cluster.bandwidth link
  sent : ∀ link, ∑ ref ∈ range sim.state.nextRef,
    ((sim.state.arena ref).route.path.count link : ℚ) * (sim.state.arena ref).bytesSent ≤
      sim.ts * bytesPerNs (sim.cluster.bandwidth link)

theorem Flowing.fitsLinks (flowing : base.Flowing sim records) (distinct : records.Nodup) :
    sim.FitsLinks where
  speed link t before := by
    have fits := Fluid.Load.sum_rateAt_le (base.fluid_fits records link) t
    rw [← flowing.carries.sum_eq distinct (f := fun ref =>
      bytesPerNs (((sim.state.arena ref).route.path.count link : ℚ) *
        speedAt (sim.state.arena ref).speedHistory t)) fun {ref record} known => ?_] at fits
    · rw [← bytesPerNs_sum, bytesPerNs_le_iff] at fits
      rw [flowing.network.cluster]
      exact fits
    · rw [(flowing.carries.bears known).path, flowing.network.pathOf, bytesPerNs_mul,
        (flowing.follows.sends known).speeds t before, nsmul_eq_mul]
  sent link := by
    have fits := Fluid.Load.sum_sent_le (base.fluid_fits records link) sim.ts
    rw [← flowing.carries.sum_eq distinct (f := fun ref =>
      ((sim.state.arena ref).route.path.count link : ℚ) * (sim.state.arena ref).bytesSent)
      fun {ref record} known => ?_, nsmul_eq_mul] at fits
    · rw [flowing.network.cluster]
      exact fits
    · rw [(flowing.carries.bears known).path, flowing.network.pathOf,
        (flowing.follows.sends known).sent, nsmul_eq_mul]

/-- In every state reached the flows of each link have kept to its bandwidth. -/
theorem fitsLinks_of_reached {cluster : Cluster} {setting : SimulatorSetting}
    {hostMapping : Option (String → Option String)} {inputs : List Input}
    (reached : Runs.Reached (· = build cluster setting hostMapping)
      (TimelyStep platform) inputs sim)
    (distinct : ((arrivals inputs).map (·.flow.id)).Nodup)
    (perFlow : setting.fairness = .perFlowMaxMin)
    (bandwidth : ∀ link, cluster.bandwidth link ≤ u64Max) : sim.FitsLinks :=
  (flowing_of_reached reached distinct perFlow bandwidth).fitsLinks (List.Nodup.of_map _ distinct)

theorem fitsLinks_lateArrival : ∃ sim : Simulator, sim.state.retiredFlows = [0, 1] ∧
    sim.FitsLinks := by
  rcases reached_lateArrival with ⟨sim, reached, reading⟩
  exact ⟨sim, congrArg Prod.snd reading,
    fitsLinks_of_reached reached (by decide) rfl bandwidth_le_of_pair⟩

end Simulator

end Phantora.Netsim
