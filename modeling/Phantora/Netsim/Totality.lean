import Phantora.Netsim.MaxMin

/-!
# Operations that succeed

An arrival with a route, a turn whose flows all move, and the start of the
ready flows cannot fail. With every rate at least one bit a second, a byte
takes at most eight seconds.
-/

namespace Phantora.Netsim

open Outcome

theorem retainM_total {keep : FlowRef → Except Panic Bool} {refs : List FlowRef}
    (answers : ∀ ref ∈ refs, ∃ kept, keep ref = .ok kept) : ∃ out, retainM keep refs = .ok out := by
  induction refs with
  | nil => exact ⟨[], rfl⟩
  | cons ref refs ih =>
      rcases answers ref List.mem_cons_self with ⟨kept, first⟩
      rcases ih fun other mem => answers other (List.mem_cons_of_mem ref mem) with ⟨out, rest⟩
      simp only [retainM, bind_eq_ok, pure_eq_ok]
      exact ⟨_, kept, first, out, rest, rfl⟩

theorem mapM_total {ε α β : Type} {f : α → Except ε β} {items : List α}
    (each : ∀ item ∈ items, ∃ result, f item = .ok result) :
    ∃ results, items.mapM f = .ok results := by
  induction items with
  | nil => exact ⟨[], rfl⟩
  | cons item items ih =>
      rcases each item List.mem_cons_self with ⟨result, first⟩
      rcases ih fun other mem => each other (List.mem_cons_of_mem item mem) with ⟨results, rest⟩
      simp only [List.mapM_cons, bind_eq_ok, pure_eq_ok]
      exact ⟨_, result, first, results, rest, rfl⟩

theorem mapM_eq_map {ε α β : Type} {f : α → Except ε β} {g : α → β} {items : List α}
    (each : ∀ item ∈ items, f item = .ok (g item)) : items.mapM f = .ok (items.map g) := by
  induction items with
  | nil => rfl
  | cons item items ih =>
      have rest := ih fun other mem => each other (List.mem_cons_of_mem item mem)
      simp only [List.mapM_cons, bind_eq_ok, pure_eq_ok]
      exact ⟨_, each item List.mem_cons_self, _, rest, rfl⟩

namespace FlowState

variable {f : FlowState} {simTs : Timestamp} {tsInc : Duration}

theorem completed_total (moves : 0 < f.speed) : ∃ complete, f.completed = .ok complete := by
  unfold completed
  split
  · exact ⟨true, rfl⟩
  · simp only [timeToComplete, bind_eq_ok, assert_eq_ok, pure_eq_ok]
    exact ⟨_, _, ⟨⟨⟩, moves, rfl⟩, rfl⟩

/-- A flow is complete after its remaining time. -/
theorem isCompleted_of_remaining (moves : 0 < f.speed) (enough : f.remainingTime ≤ tsInc) :
    (f.advance simTs tsInc).isCompleted = true := by
  have time : (f.flow.bytes - f.bytesSent) * 8 / f.speed * 1000000000 ≤ (tsInc : ℚ) := by
    have le := Int.ceil_le.mp (Int.toNat_le.mp enough)
    exact_mod_cast le
  have sent : (f.flow.bytes : ℚ) ≤ f.bytesSent + f.speed / 1000000000 * tsInc / 8 := by
    have scaled := mul_le_mul_of_nonneg_right time (le_of_lt moves)
    have cancel : (f.flow.bytes - f.bytesSent) * 8 / f.speed * 1000000000 * f.speed =
        (f.flow.bytes - f.bytesSent) * 8 * 1000000000 := by
      field_simp
    rw [cancel] at scaled
    linarith
  simp [isCompleted, advance, sent]

/-- Since its start the flow has moved by at least one bit a second, and it is not complete. -/
structure Paced (f : FlowState) (simTs : Timestamp) : Prop where
  started : f.ts ≤ simTs
  moved : ((simTs - f.ts : ℕ) : ℚ) ≤ 8000000000 * f.bytesSent
  left : f.bytesSent ≤ f.flow.bytes

theorem Paced.advance (paced : f.Paced simTs) (moves : 1 ≤ f.speed)
    (incomplete : (f.advance simTs tsInc).isCompleted = false) :
    (f.advance simTs tsInc).Paced (simTs + tsInc) := by
  have later : simTs + tsInc - f.ts = simTs - f.ts + tsInc := Nat.sub_add_comm paced.started
  refine ⟨paced.started.trans (Nat.le_add_right _ _), ?_, ?_⟩
  · have more : (tsInc : ℚ) ≤ f.speed * tsInc := le_mul_of_one_le_left (Nat.cast_nonneg _) moves
    have before := paced.moved
    simp only [FlowState.advance, later, Nat.cast_add]
    linarith
  · simp only [isCompleted, Bool.or_eq_false_iff, decide_eq_false_iff_not, not_le] at incomplete
    exact le_of_lt incomplete.1

/-- At one bit a second a byte takes eight seconds, and no flow is slower. -/
theorem Paced.bound (paced : f.Paced simTs) (moves : 1 ≤ f.speed)
    (soon : tsInc ≤ f.remainingTime) : simTs - f.ts + tsInc ≤ 8000000000 * f.flow.bytes := by
  have early : simTs - f.ts ≤ 8000000000 * f.flow.bytes := by
    have le := paced.moved.trans (mul_le_mul_of_nonneg_left paced.left (by norm_num))
    exact_mod_cast le
  have rest : f.remainingTime ≤ 8000000000 * f.flow.bytes - (simTs - f.ts) := by
    have missing : 0 ≤ (f.flow.bytes - f.bytesSent) * 8 := by linarith [paced.left]
    have slowest := div_le_self missing moves
    have before := paced.moved
    refine Int.toNat_le.mpr (Int.ceil_le.mpr ?_)
    rw [Int.cast_natCast, Nat.cast_sub early]
    push_cast
    linarith
  have total := Nat.add_le_add_left (soon.trans rest) (simTs - f.ts)
  rwa [Nat.add_sub_cancel' early] at total

end FlowState

namespace NetState

@[simp]
theorem speed_stepFlow (simTs : Timestamp) (tsInc : Duration) (f : FlowState) :
    (stepFlow simTs tsInc f).speed = f.speed := by
  unfold stepFlow
  dsimp only
  split <;> rfl

@[simp]
theorem maxRate_stepFlow (simTs : Timestamp) (tsInc : Duration) (f : FlowState) :
    (stepFlow simTs tsInc f).maxRate = f.maxRate := by
  unfold stepFlow
  dsimp only
  split <;> rfl

theorem advanceFlow_total {state : NetState} {simTs : Timestamp} {tsInc : Duration}
    {compFlows : List TraceRecord} {ref : FlowRef} (moves : 0 < (state.arena ref).speed)
    (slow : (state.arena ref).speed ≤ (state.arena ref).maxRate) :
    ∃ result, advanceFlow simTs tsInc (state, compFlows) ref = .ok result := by
  have fits : (state.arena ref).speed ≤ (state.arena ref).maxRate + 10 :=
    slow.trans (le_add_of_nonneg_right (by norm_num))
  have isMoving : 0 < ((state.arena ref).advance simTs tsInc).speed := moves
  rcases FlowState.completed_total isMoving with ⟨complete, answer⟩
  cases complete with
  | true =>
      simp only [advanceFlow, bind_eq_ok, assert_eq_ok]
      exact ⟨_, ⟨⟩, fits, true, answer, rfl⟩
  | false =>
      simp only [advanceFlow, bind_eq_ok, assert_eq_ok]
      exact ⟨_, ⟨⟩, fits, false, answer, rfl⟩

theorem retainLinks_total {state : NetState} {keep : FlowRef → Except Panic Bool}
    (indexed : state.Indexed) (answers : ∀ ref ∈ state.runningFlows, ∃ kept, keep ref = .ok kept) :
    ∃ linkFlows, retainLinks keep state.linkFlows = .ok linkFlows := by
  have each : ∃ kept, (state.linkFlows.mapM fun entry => do
      let set ← entry.2.retain keep
      return (entry.1, set)) = .ok kept := by
    apply mapM_total
    rintro ⟨link, set⟩ mem
    rcases indexed.filed.flat _ mem with ⟨flows, flat, _⟩
    dsimp only at flat
    subst flat
    have onLink : flowsOn state.linkFlows link = flows := indexed.filed.flowsOn_eq mem
    have kept : ∃ kept, retainM keep flows = .ok kept := retainM_total fun ref inFlows =>
      answers ref (indexed.mem_flowsOn.mp (onLink.symm ▸ inFlows)).1
    rcases kept with ⟨kept, isKept⟩
    refine ⟨(link, .flat kept), ?_⟩
    simp only [FlowSet.retain, isKept, bind_eq_ok, map_eq_ok, pure_eq_ok]
    exact ⟨_, ⟨_, rfl, rfl⟩, rfl⟩
  rcases each with ⟨kept, isKept⟩
  simp only [retainLinks, bind_eq_ok, pure_eq_ok]
  exact ⟨_, kept, isKept, rfl⟩

/-- The completions of a turn are found without a failure when all flows move. -/
theorem completeFlows_total {state : NetState} {simTs : Timestamp} {tsInc : Duration}
    (indexed : state.Indexed) (nodup : state.runningFlows.Nodup)
    (moves : ∀ ref ∈ state.runningFlows, 0 < (state.arena ref).speed)
    (slow : ∀ ref ∈ state.runningFlows, (state.arena ref).speed ≤ (state.arena ref).maxRate) :
    ∃ result, state.completeFlows simTs tsInc = .ok result := by
  have advanced : ∃ acc, state.runningFlows.foldlM (advanceFlow simTs tsInc) (state, []) = .ok acc ∧
      ∀ ref, (acc.1.arena ref).speed = (state.arena ref).speed ∧
        (acc.1.arena ref).maxRate = (state.arena ref).maxRate := by
    refine foldlM_total (fun _ (acc : NetState × List TraceRecord) => ∀ ref,
      (acc.1.arena ref).speed = (state.arena ref).speed ∧
        (acc.1.arena ref).maxRate = (state.arena ref).maxRate) ?_ fun _ => ⟨rfl, rfl⟩
    rintro done ref rest ⟨middle, comp⟩ same whole
    have mem : ref ∈ state.runningFlows := by simp [← whole]
    have isMoving : 0 < (middle.arena ref).speed := (same ref).1.symm ▸ moves ref mem
    have isSlow : (middle.arena ref).speed ≤ (middle.arena ref).maxRate := by
      rw [(same ref).1, (same ref).2]
      exact slow ref mem
    have run : ∃ result, advanceFlow simTs tsInc (middle, comp) ref = .ok result :=
      advanceFlow_total isMoving isSlow
    rcases run with ⟨⟨next, comp'⟩, run⟩
    refine ⟨_, run, fun other => ?_⟩
    rcases advanceFlow_eq_ok run with ⟨rfl, _⟩
    by_cases equal : other = ref
    · subst other
      simpa using same ref
    · simpa [equal] using same other
  rcases advanced with ⟨⟨middle, comp⟩, advanced, same⟩
  rcases advanceFlows_eq_ok nodup advanced with ⟨whole, _⟩
  have answers : ∀ ref ∈ state.runningFlows, ∃ kept, (do
      let complete ← (middle.arena ref).completed
      return !complete : Except Panic Bool) = .ok kept := by
    intro ref mem
    rcases FlowState.completed_total ((same ref).1.symm ▸ moves ref mem) with ⟨complete, answer⟩
    exact ⟨!complete, by rw [answer]; rfl⟩
  have running : middle.runningFlows = state.runningFlows := by rw [whole]
  have links : middle.linkFlows = state.linkFlows := by rw [whole]
  have loopbacks : middle.loopbackFlows = state.loopbackFlows := by rw [whole]
  rcases retainM_total answers with ⟨out, retained⟩
  rcases retainLinks_total indexed answers with ⟨linkFlows, retainedLinks⟩
  have onLoopback : ∀ ref ∈ state.loopbackFlows, ref ∈ state.runningFlows := by
    intro ref mem
    rw [indexed.loopbacks] at mem
    exact (List.mem_filter.mp mem).1
  rcases retainM_total fun ref mem => answers ref (onLoopback ref mem) with
    ⟨loopbackFlows, retainedLoopbacks⟩
  simp only [completeFlows, bind_eq_ok, pure_eq_ok, Prod.exists]
  refine ⟨_, _, middle, comp, advanced, out, ?_, linkFlows, ?_, loopbackFlows, ?_, rfl⟩
  · rw [running]
    exact retained
  · rw [links]
    exact retainedLinks
  · rw [loopbacks]
    exact retainedLoopbacks

/-- The ready flows are started without a failure when none of them is late. -/
theorem emitReadyFlows_total {platform : Platform} {simTs : Timestamp} {fuel : ℕ}
    {state : NetState} (indexed : state.Indexed) (nodup : state.refs.Nodup)
    (ready : ∀ entry ∈ state.flowBufs, simTs ≤ (state.arena entry.2).ts)
    (enough : state.flowBufs.entries.length < fuel) :
    ∃ state', emitReadyFlows platform simTs fuel state = .ok state' := by
  induction fuel generalizing state with
  | zero => omega
  | succ fuel ih =>
      simp only [emitReadyFlows]
      split
      · exact ⟨state, rfl⟩
      · rename_i id ref first
        have mem := PriorityQueue.mem_of_peek (platform.order_perm 0 _) first
        split
        · exact ⟨state, rfl⟩
        · rename_i due
          have now : simTs = (state.arena ref).ts := Nat.le_antisymm (ready _ mem) (not_lt.mp due)
          have taken : Indexed { state with flowBufs := state.flowBufs.erase id } :=
            indexed.congr rfl rfl rfl rfl fun _ _ => rfl
          rcases emitFlow_total taken ref with ⟨middle, emitted⟩
          rcases emitReady_indexed indexed nodup mem emitted with ⟨indexed', nodup'⟩
          have shorter := (PriorityQueue.entries_perm_erase mem).length_eq
          rcases emitFlow_eq_ok emitted with ⟨linkFlows, loopbackFlows, _, rfl⟩
          rw [List.length_cons] at shorter
          have later : ∀ entry ∈ state.flowBufs.erase id, entry ∈ state.flowBufs :=
            fun entry entryMem => (PriorityQueue.mem_erase.mp entryMem).2
          have rest := ih indexed' nodup' (fun entry entryMem => ready entry (later entry entryMem))
            (by dsimp only; omega)
          rcases rest with ⟨state', run⟩
          refine ⟨state', ?_⟩
          simp only [bind_eq_ok, assert_eq_ok]
          exact ⟨⟨⟩, now, _, emitted, run⟩

/-- Only flows that start now are started, and those that start later stay in the buffer. -/
theorem emitReadyFlows_starts {platform : Platform} {simTs : Timestamp} {fuel : ℕ}
    {state state' : NetState} (run : emitReadyFlows platform simTs fuel state = .ok state') :
    (∀ ref ∈ state'.runningFlows, ref ∈ state.runningFlows ∨
      (ref ∈ state.buffered ∧ (state.arena ref).ts = simTs)) ∧
    ∀ entry ∈ state.flowBufs, simTs < (state.arena entry.2).ts → entry ∈ state'.flowBufs := by
  induction fuel generalizing state with
  | zero => simp [emitReadyFlows] at run
  | succ fuel ih =>
      simp only [emitReadyFlows] at run
      split at run
      · simp only [Except.ok.injEq] at run
        exact run ▸ ⟨fun ref mem => Or.inl mem, fun entry mem _ => mem⟩
      · rename_i id ref first
        split at run
        · simp only [Except.ok.injEq] at run
          exact run ▸ ⟨fun ref mem => Or.inl mem, fun entry mem _ => mem⟩
        · simp only [bind_eq_ok, assert_eq_ok] at run
          rcases run with ⟨_, now, middle, emitted, rest⟩
          rcases emitFlow_eq_ok emitted with ⟨_, _, _, rfl⟩
          rcases ih rest with ⟨started, waits⟩
          have taken := PriorityQueue.mem_of_peek (platform.order_perm 0 _) first
          constructor
          · intro other mem
            rcases started other mem with running | ⟨buffered, start⟩
            · rcases List.mem_append.mp running with old | new
              · exact Or.inl old
              · rw [List.mem_singleton] at new
                exact Or.inr (new ▸ ⟨List.mem_map_of_mem (f := Prod.snd) taken, now.symm⟩)
            · rcases List.mem_map.mp buffered with ⟨entry, entryMem, rfl⟩
              exact Or.inr ⟨List.mem_map_of_mem (PriorityQueue.mem_erase.mp entryMem).2, start⟩
          · rintro ⟨other, flow⟩ mem later
            refine waits _ (PriorityQueue.mem_erase.mpr ⟨?_, mem⟩) later
            rintro rfl
            rw [PriorityQueue.eq_of_mem mem taken, ← now] at later
            exact Nat.lt_irrefl _ later

/-- A flow with a route can arrive. -/
theorem addFlow_total {state : NetState} {record : TraceRecord} {cluster : Cluster}
    {simTs : Timestamp} {hostMapping : Option (String → Option String)} {src dst : String}
    {route : Route} (indexed : state.Indexed)
    (old : ∀ ref ∈ state.runningFlows, ref < state.nextRef)
    (isSrc : mapHostname hostMapping record.flow.src = .ok src)
    (isDst : mapHostname hostMapping record.flow.dst = .ok dst)
    (resolves : cluster.resolveRoute src dst record.flow.vsrc record.flow.vdst = .ok route) :
    ∃ state', state.addFlow record cluster simTs hostMapping = .ok state' := by
  have pushes : ∀ flow : FlowState, ∃ state', ({ state with
      arena := Function.update state.arena state.nextRef flow
      nextRef := state.nextRef + 1 } : NetState).pushFlow state.nextRef simTs = .ok state' := by
    intro flow
    have isIndexed : Indexed { state with
        arena := Function.update state.arena state.nextRef flow
        nextRef := state.nextRef + 1 } := by
      refine indexed.congr rfl rfl rfl rfl fun ref mem => ?_
      dsimp only
      rw [Function.update_of_ne (Nat.ne_of_lt (old ref mem))]
    unfold pushFlow
    split
    · exact ⟨_, rfl⟩
    · exact emitFlow_total isIndexed _
  simp only [addFlow, isSrc, isDst, bind_eq_ok, Except.ok.injEq, exists_eq_left', resolves]
  exact pushes _

end NetState

namespace Simulator

/-- With a unit for each flow on each link, filling gives every flow a whole rate of one or more
that fits a word. -/
theorem Allocatable.speeds {platform : Platform} {sim : Simulator} (allocatable : sim.Allocatable)
    (enough : sim.state.runningFlows.length < platform.fuel)
    (units : ∀ link, (NetState.flowsOn sim.state.linkFlows link).length ≤
      sim.cluster.bandwidth link)
    (small : sim.setting.loopbackSpeed ≤ u64Max)
    (loopback : ∀ ref ∈ sim.state.runningFlows, (sim.state.arena ref).route.path = [] →
      0 < sim.setting.loopbackSpeed) :
    ∃ arena : Arena, sim.maxMinFairnessConverge platform =
        .ok { sim with state := { sim.state with arena := arena } } ∧
      (∀ ref, (arena ref).core = (sim.state.arena ref).core) ∧
      ∀ ref ∈ sim.state.runningFlows, 1 ≤ (arena ref).speed ∧ (arena ref).speed ≤ u64Max := by
  rcases allocatable.converge enough with ⟨arena, s, run, fills, simulates, frozen⟩
  have core : ∀ ref, (arena ref).core = (sim.state.arena ref).core := by
    rcases maxMinFairnessConverge_eq_ok run with ⟨other, same, core⟩
    have equal : arena = other := congrArg (fun sim : Simulator => sim.state.arena) same
    exact equal ▸ core
  have path : ∀ ref, (arena ref).route.path = (sim.state.arena ref).route.path := by
    intro ref
    simpa using congrArg (fun f : FlowState => f.route.path) (core ref)
  have fair := allocatable.fair core fills simulates frozen
  have iters : ∀ link set, (link, set) ∈ sim.state.linkFlows →
      set.iter.length ≤ sim.cluster.bandwidth link := by
    intro link set mem
    rw [← allocatable.indexed.filed.flowsOn_eq mem]
    exact units link
  rcases WaterFilling.Filled.fills ⟨0, allocatable.begins.filled⟩ fills with ⟨level, filled⟩
  refine ⟨arena, run, core, fun ref mem => ⟨?_, ?_⟩⟩
  · have moves := (fair.moving iters ref mem fun empty =>
      loopback ref mem ((path ref).symm.trans empty)).1
    dsimp only at moves
    rw [simulates.speed ref mem] at moves ⊢
    exact_mod_cast moves
  · by_cases empty : (arena ref).route.path = []
    · have speed : (arena ref).speed = sim.setting.loopbackSpeed := fair.loopback ref mem empty
      rw [speed]
      exact_mod_cast small
    · rw [path] at empty
      rcases List.exists_mem_of_ne_nil _ empty with ⟨link, onPath⟩
      have crosses := allocatable.indexed.mem_flowsOn.mpr ⟨mem, onPath⟩
      have part : s.rate ref ≤
          WaterFilling.load (Filling.network sim.cluster sim.state.linkFlows) s link :=
        Multiset.le_sum_of_mem (Multiset.mem_map_of_mem s.rate (Multiset.mem_coe.mpr crosses))
      rw [simulates.speed ref mem]
      exact_mod_cast (part.trans (filled.feasible link)).trans (allocatable.bandwidth link)

end Simulator

end Phantora.Netsim
