import Phantora.Netsim.Architecture
import Phantora.Netsim.FlowSets

/-!
# Grouping by pairs of virtual machines

The key of a group packs the numbers of two virtual machines into one word.
Both numbers are read from the source of the flow, so that flows from one
virtual machine to several others share a group.
-/

namespace Phantora.Netsim

open Outcome

theorem parseDigits_toDigits {n : ℕ} (small : n ≤ u64Max) :
    parseDigits (Nat.toDigits 10 n) = some n := by
  have digits : ¬(Nat.toDigits 10 n).any fun digit => !digit.isDigit := by
    rw [List.any_eq_true]
    rintro ⟨digit, mem, other⟩
    have isDigit := Nat.isDigit_of_mem_toDigits (by decide) (by decide) mem
    simp [isDigit] at other
  have value : (Nat.toDigits 10 n).foldl
      (fun value digit => 10 * value + (digit.toNat - 48)) 0 = n :=
    Nat.ofDigitChars_toDigits (by decide) (by decide)
  have regular : ¬(Nat.toDigits 10 n = [] ∨
      (Nat.toDigits 10 n).any (fun digit => !digit.isDigit) = true) :=
    not_or.mpr ⟨Nat.toDigits_ne_nil, digits⟩
  simp only [parseDigits, if_neg regular, value, if_pos small]

/-- The number of a virtual machine is read back from its name. -/
theorem vmId_hostName {n : ℕ} (small : n ≤ u64Max) : vmId (hostName n) = some n := by
  have name : (hostName n).toList = "host_".toList ++ Nat.toDigits 10 n := by
    simp [hostName, Nat.toString_eq_repr, Nat.toList_repr]
  have number : (hostName n).toList.drop 5 = Nat.toDigits 10 n := by
    rw [name]
    rfl
  have isPrefix : "host_".toList <+: (hostName n).toList := name ▸ List.prefix_append _ _
  rw [vmId, if_pos isPrefix, number]
  cases digits : Nat.toDigits 10 n with
  | nil => exact absurd digits Nat.toDigits_ne_nil
  | cons digit rest =>
      have notSign : digit ≠ '+' := by
        rintro rfl
        have isDigit := Nat.isDigit_of_mem_toDigits (by decide) (by decide)
          (digits ▸ List.mem_cons_self : '+' ∈ Nat.toDigits 10 n)
        exact absurd isDigit (by decide)
      have parsed := parseDigits_toDigits small
      rw [digits] at parsed
      unfold parseUsize
      split
      · rename_i sign
        exact absurd (List.cons.inj sign).1 notSign
      · exact parsed

/-- The key of a flow from a virtual machine: the number of the machine, twice. -/
theorem hashVmPair_hostName {flow : Flow} {i : ℕ} (small : i < 2 ^ 32)
    (source : flow.vsrc = some (hostName i)) : hashVmPair flow = .ok (i * 2 ^ 32 + i) := by
  have known : vmId (hostName i) = some i := vmId_hostName (by simp only [u64Max]; omega)
  have whole : (i <<< 32) % 2 ^ 64 = i <<< 32 := by
    rw [Nat.shiftLeft_eq]
    omega
  simp only [hashVmPair, source, bind_eq_ok, unwrap_eq_ok, pure_eq_ok]
  refine ⟨hostName i, rfl, i, known, i, known, ?_⟩
  rw [whole, ← Nat.shiftLeft_add_eq_or_of_lt small, Nat.shiftLeft_eq]

/-- The source and the destination of the flow are virtual machines with numbers of 32 bits. -/
structure Flow.BetweenVms (flow : Flow) : Prop where
  source : ∃ i < 2 ^ 32, flow.vsrc = some (hostName i)
  target : ∃ j < 2 ^ 32, flow.vdst = some (hostName j)

/-- The keys of two flows tell their sources apart. -/
theorem Flow.BetweenVms.key {flow : Flow} (between : flow.BetweenVms) :
    ∃ key, hashVmPair flow = .ok key ∧
      ∀ {other : Flow}, other.BetweenVms →
        (hashVmPair other = .ok key ↔ flow.vsrc = other.vsrc) := by
  rcases between.source with ⟨i, small, source⟩
  refine ⟨_, hashVmPair_hostName small source, fun {other} between' => ?_⟩
  rcases between'.source with ⟨j, small', source'⟩
  rw [hashVmPair_hostName small' source', source, source', Except.ok.injEq, Option.some.injEq,
    hostName_inj]
  omega

namespace FlowSet

/-- The two flows are in one group. -/
def SameGroup (set : FlowSet) (first second : FlowRef) : Prop :=
  ∃ group ∈ set.groups, first ∈ group ∧ second ∈ group

/-- Flows share a group exactly when they go from the same virtual machine to the same one. -/
def SeparatesVmPairs (set : FlowSet) (flowOf : FlowRef → Flow) (refs : List FlowRef) : Prop :=
  ∀ first ∈ refs, ∀ second ∈ refs, set.SameGroup first second ↔
    (flowOf first).vsrc = (flowOf second).vsrc ∧ (flowOf first).vdst = (flowOf second).vdst

/-- Push flows one after the other, each with the states of the flows at that moment. -/
def pushAll (set : FlowSet) (pushes : List (Arena × FlowRef)) : Except Panic FlowSet :=
  pushes.foldlM (fun set push => set.push push.1 push.2) set

/-- The key of a flow, for one that has a key. -/
def keyOf (flowOf : FlowRef → Flow) (ref : FlowRef) : ℕ :=
  (hashVmPair (flowOf ref)).toOption.getD 0

variable {flowOf : FlowRef → Flow} {pushes : List (Arena × FlowRef)}

theorem pushAll_vmPairs (flows : ∀ push ∈ pushes, (push.1 push.2).flow = flowOf push.2)
    (between : ∀ push ∈ pushes, (flowOf push.2).BetweenVms) :
    (new .perVmPairMaxMin).pushAll pushes =
      .ok (groupByVmPair (Grouping.group (keyOf flowOf) (pushes.map Prod.snd))) := by
  have step : ∀ {done push rest set},
      set = groupByVmPair (Grouping.group (keyOf flowOf) (done.map Prod.snd)) →
      done ++ push :: rest = pushes → ∃ set', set.push push.1 push.2 = .ok set' ∧
        set' = groupByVmPair (Grouping.group (keyOf flowOf) ((done ++ [push]).map Prod.snd)) := by
    rintro done push rest set rfl split
    have mem : push ∈ pushes := split ▸ List.mem_append_right _ List.mem_cons_self
    rcases (between push mem).key with ⟨key, hashes, _⟩
    have known : keyOf flowOf push.2 = key := by
      rw [keyOf, hashes]
      rfl
    refine ⟨_, ?_, rfl⟩
    simp only [FlowSet.push, flows push mem, hashes, ok_bind, pushGroup_eq_insert, List.map_append,
      List.map_cons, List.map_nil, Grouping.group, List.foldl_concat, known]
    rfl
  have total := foldlM_total (fun done set => set = groupByVmPair
    (Grouping.group (keyOf flowOf) (done.map Prod.snd))) step (s := new .perVmPairMaxMin) rfl
  rcases total with ⟨set, run, rfl⟩
  exact run

/-- Pushed flows share a group when their keys are equal. -/
theorem sameGroup_iff {refs : List FlowRef} {first second : FlowRef} (mem : first ∈ refs)
    (mem' : second ∈ refs) :
    (groupByVmPair (Grouping.group (keyOf flowOf) refs)).SameGroup first second ↔
      keyOf flowOf first = keyOf flowOf second := by
  rcases Grouping.group_spec (keyOf flowOf) refs with ⟨_, keys, groups⟩
  constructor
  · rintro ⟨group, inGroups, inGroup, inGroup'⟩
    rcases List.mem_map.mp inGroups with ⟨⟨key, members⟩, inSet, rfl⟩
    have spec := groups key members inSet
    subst spec
    have same := (List.mem_filter.mp inGroup).2
    have same' := (List.mem_filter.mp inGroup').2
    simp only [decide_eq_true_eq] at same same'
    rw [same, same']
  · intro same
    rcases List.mem_map.mp ((keys (keyOf flowOf first)).mpr (List.mem_map_of_mem mem)) with
      ⟨⟨key, members⟩, inSet, rfl⟩
    have spec := groups _ members inSet
    refine ⟨members, List.mem_map_of_mem (f := Prod.snd) inSet, ?_, ?_⟩
    · rw [spec]
      exact List.mem_filter.mpr ⟨mem, by simp⟩
    · rw [spec]
      exact List.mem_filter.mpr ⟨mem', by simp [same]⟩

/-- Flows between virtual machines can be pushed in any order, and their groups separate the pairs
of machines exactly when no two of the flows go from one machine to different ones. -/
theorem separatesVmPairs_iff (flows : ∀ push ∈ pushes, (push.1 push.2).flow = flowOf push.2)
    (between : ∀ push ∈ pushes, (flowOf push.2).BetweenVms) :
    ∃ set, (new .perVmPairMaxMin).pushAll pushes = .ok set ∧
      (set.SeparatesVmPairs flowOf (pushes.map Prod.snd) ↔
        ∀ first ∈ pushes, ∀ second ∈ pushes, (flowOf first.2).vsrc = (flowOf second.2).vsrc →
          (flowOf first.2).vdst = (flowOf second.2).vdst) := by
  have shares : ∀ first ∈ pushes, ∀ second ∈ pushes,
      ((groupByVmPair (Grouping.group (keyOf flowOf) (pushes.map Prod.snd))).SameGroup first.2
        second.2 ↔ (flowOf first.2).vsrc = (flowOf second.2).vsrc) := by
    intro first mem second mem'
    rw [sameGroup_iff (List.mem_map_of_mem mem) (List.mem_map_of_mem mem')]
    rcases (between first mem).key with ⟨key, hashes, key_iff⟩
    rcases (between second mem').key with ⟨key', hashes', _⟩
    rw [← key_iff (between second mem'), keyOf, keyOf, hashes, hashes']
    simp [Except.toOption, eq_comm]
  refine ⟨_, pushAll_vmPairs flows between, ?_⟩
  simp only [SeparatesVmPairs, List.forall_mem_map]
  constructor
  · intro separates first mem second mem' source
    have same := (shares first mem second mem').mpr source
    exact ((separates first mem second mem').mp same).2
  · intro targets first mem second mem'
    rw [shares first mem second mem']
    exact ⟨fun source => ⟨source, targets first mem second mem' source⟩, And.left⟩

/-- Flows from one virtual machine, each to one of its own. -/
def fanOut (ref : FlowRef) : Flow where
  id := ref
  bytes := 1
  src := "host_0"
  dst := "host_1"
  vsrc := some (hostName 0)
  vdst := some (hostName (ref + 1))

def fanOutArena : Arena :=
  fun ref => { (default : FlowState) with flow := fanOut ref }

def pushFanOut : List (Arena × FlowRef) :=
  [(fanOutArena, 0), (fanOutArena, 1)]

theorem betweenVms_fanOut : ∀ push ∈ pushFanOut, (fanOut push.2).BetweenVms := by
  simp only [pushFanOut, List.forall_mem_cons, List.not_mem_nil, false_imp_iff, implies_true,
    and_true]
  exact ⟨⟨⟨0, by omega, rfl⟩, ⟨1, by omega, rfl⟩⟩, ⟨⟨0, by omega, rfl⟩, ⟨2, by omega, rfl⟩⟩⟩

/-- Two flows from one virtual machine to different ones share a group. -/
theorem not_separatesVmPairs_fanOut : (∀ push ∈ pushFanOut, (fanOut push.2).BetweenVms) ∧
    ∃ set, (new .perVmPairMaxMin).pushAll pushFanOut = .ok set ∧
      ¬set.SeparatesVmPairs fanOut (pushFanOut.map Prod.snd) := by
  have run : (new .perVmPairMaxMin).pushAll pushFanOut = .ok (groupByVmPair [(0, [0, 1])]) := by
    decide +kernel
  refine ⟨betweenVms_fanOut, _, run, fun separates => ?_⟩
  have together : (groupByVmPair [(0, [0, 1])]).SameGroup 0 1 :=
    ⟨[0, 1], List.mem_singleton_self _, by simp, by simp⟩
  have targets := ((separates 0 (by simp [pushFanOut]) 1 (by simp [pushFanOut])).mp together).2
  simp [fanOut] at targets

theorem separatesVmPairs_iff_fanOut : ∃ set, (new .perVmPairMaxMin).pushAll pushFanOut = .ok set ∧
    (set.SeparatesVmPairs fanOut (pushFanOut.map Prod.snd) ↔
      ∀ first ∈ pushFanOut, ∀ second ∈ pushFanOut,
        (fanOut first.2).vsrc = (fanOut second.2).vsrc →
          (fanOut first.2).vdst = (fanOut second.2).vdst) := by
  refine separatesVmPairs_iff ?_ betweenVms_fanOut
  simp [pushFanOut, fanOutArena]

end FlowSet

end Phantora.Netsim
