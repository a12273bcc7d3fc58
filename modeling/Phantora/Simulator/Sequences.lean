import Phantora.Simulator.StreamOrder

/-!
# Sequences of torch calls

Buffered calls are split where the device would be idle: a call begins a new
sequence when it is issued after a device that takes the calls one at a time
and in order has finished the call before it.
-/

namespace Phantora

/-- A buffered call with its estimated duration. -/
abbrev Buffered := TorchCall × ℕ

/-- The time of the call at an index. -/
def timeAt (entries : List Buffered) (i : ℕ) : ℤ :=
  (entries[i]?.map fun entry => entry.1.time).getD 0

/-- The duration of the call at an index. -/
def durationAt (entries : List Buffered) (i : ℕ) : ℤ :=
  (entries[i]?.map fun entry => asMicros entry.2).getD 0

/-- When a first-in-first-out device has finished the call at an index. -/
def finishTime (entries : List Buffered) : ℕ → ℤ
  | 0 => timeAt entries 0 + durationAt entries 0
  | i + 1 => max (timeAt entries (i + 1)) (finishTime entries i) + durationAt entries (i + 1)

/-- One of the sequences begins with the call at an index. -/
def StartsAt (seqs : List TorchCallSeq) (i : ℕ) : Prop :=
  ∃ front back, seqs = front ++ back ∧ back ≠ [] ∧
    (front.flatMap TorchCallSeq.calls).length = i

section Prefixes

variable {entries : List Buffered} {entry : Buffered} {i : ℕ}

@[simp]
theorem timeAt_last : timeAt (entries ++ [entry]) entries.length = entry.1.time := by
  simp [timeAt]

@[simp]
theorem durationAt_last :
    durationAt (entries ++ [entry]) entries.length = asMicros entry.2 := by
  simp [durationAt]

theorem timeAt_append (lt : i < entries.length) :
    timeAt (entries ++ [entry]) i = timeAt entries i := by
  simp [timeAt, List.getElem?_append_left lt]

theorem durationAt_append (lt : i < entries.length) :
    durationAt (entries ++ [entry]) i = durationAt entries i := by
  simp [durationAt, List.getElem?_append_left lt]

/-- Later calls do not change when a call is finished. -/
theorem finishTime_append (lt : i < entries.length) :
    finishTime (entries ++ [entry]) i = finishTime entries i := by
  induction i with
  | zero => rw [finishTime, finishTime, timeAt_append lt, durationAt_append lt]
  | succ i ih =>
      rw [finishTime, finishTime, timeAt_append lt, durationAt_append lt, ih (by omega)]

theorem finishTime_last (nonempty : entries ≠ []) :
    finishTime (entries ++ [entry]) entries.length =
      max entry.1.time (finishTime entries (entries.length - 1)) + asMicros entry.2 := by
  have positive := List.length_pos_iff.mpr nonempty
  rcases previous : entries.length with _ | n
  · omega
  · rw [finishTime, finishTime_append (by omega), ← previous, timeAt_last, durationAt_last,
      previous, Nat.add_sub_cancel]

end Prefixes

section Starts

variable {seqs : List TorchCallSeq} {last : TorchCallSeq} {i : ℕ}

theorem startsAt_concat :
    StartsAt (seqs ++ [last]) i ↔
      StartsAt seqs i ∨ i = (seqs.flatMap TorchCallSeq.calls).length := by
  constructor
  · rintro ⟨front, back, split, nonempty, rfl⟩
    rcases List.eq_nil_or_concat back with rfl | ⟨rest, other, rfl⟩
    · exact absurd rfl nonempty
    · rw [List.concat_eq_append, ← List.append_assoc] at split
      have parts := List.append_inj' split rfl
      rcases List.eq_nil_or_concat rest with rfl | ⟨init, second, rfl⟩
      · rw [List.append_nil] at parts
        exact Or.inr (by rw [parts.1])
      · exact Or.inl ⟨front, init.concat second, parts.1, by simp, rfl⟩
  · rintro (⟨front, back, rfl, _, rfl⟩ | rfl)
    · exact ⟨front, back ++ [last], by rw [List.append_assoc], by simp, rfl⟩
    · exact ⟨seqs, [last], rfl, by simp, rfl⟩

/-- Sequences begin at calls. -/
theorem StartsAt.lt (starts : StartsAt seqs i) (nonempty : ∀ seq ∈ seqs, seq.calls ≠ []) :
    i < (seqs.flatMap TorchCallSeq.calls).length := by
  rcases starts with ⟨front, back, rfl, some_back, rfl⟩
  rcases back with _ | ⟨seq, back⟩
  · exact absurd rfl some_back
  · have first := List.length_pos_iff.mpr (nonempty seq (by simp))
    rw [List.flatMap_append, List.flatMap_cons, List.length_append, List.length_append]
    omega

end Starts

/-- What the loop knows after some of the calls. -/
structure Splitting (entries : List Buffered) (state : SplitState) : Prop where
  begun : entries ≠ []
  ends : state.currEndTime = finishTime entries (entries.length - 1)
  calls : (state.seqs ++ [TorchCallSeq.new state.lastSeq]).flatMap TorchCallSeq.calls =
    entries.map Prod.fst
  nonempty : ∀ seq ∈ state.seqs, seq.calls ≠ []
  last : state.lastSeq ≠ []
  starts : ∀ i, 0 < i → i < entries.length →
    (StartsAt (state.seqs ++ [TorchCallSeq.new state.lastSeq]) i ↔
      finishTime entries (i - 1) < timeAt entries i)

namespace Splitting

variable {entries : List Buffered} {state : SplitState} {entry : Buffered}

theorem first (entry : Buffered) :
    Splitting [entry] (splitStep ⟨[], [], entry.1.time⟩ entry) := by
  rw [splitStep, if_pos (le_refl _)]
  refine ⟨by simp, ?_, ?_, by simp, by simp, ?_⟩
  · simp [finishTime, timeAt, durationAt]
  · simp
  · intro i positive lt
    rw [List.length_singleton] at lt
    omega

theorem nonempty_all (splitting : Splitting entries state) :
    ∀ seq ∈ state.seqs ++ [TorchCallSeq.new state.lastSeq], seq.calls ≠ [] := by
  intro seq mem
  rcases List.mem_append.mp mem with mem | mem
  · exact splitting.nonempty seq mem
  · rw [List.mem_singleton.mp mem, TorchCallSeq.calls_new, Ne, List.map_eq_nil_iff]
    exact splitting.last

theorem length_eq (splitting : Splitting entries state) :
    ((state.seqs ++ [TorchCallSeq.new state.lastSeq]).flatMap TorchCallSeq.calls).length =
      entries.length := by
  rw [splitting.calls, List.length_map]

/-- A call issued while the device is busy joins the last sequence, another one begins a new
sequence. -/
theorem step (splitting : Splitting entries state) (entry : Buffered) :
    Splitting (entries ++ [entry]) (splitStep state entry) := by
  have positive := List.length_pos_iff.mpr splitting.begun
  have previous : (entries ++ [entry]).length - 1 = entries.length := by simp
  have older : ∀ i, 0 < i → i < entries.length →
      (finishTime (entries ++ [entry]) (i - 1) < timeAt (entries ++ [entry]) i ↔
        finishTime entries (i - 1) < timeAt entries i) := by
    intro i _ lt
    rw [finishTime_append (by omega), timeAt_append lt]
  have newest : finishTime (entries ++ [entry]) (entries.length - 1) <
      timeAt (entries ++ [entry]) entries.length ↔ state.currEndTime < entry.1.time := by
    rw [finishTime_append (by omega), timeAt_last, splitting.ends]
  unfold splitStep
  by_cases busy : entry.1.time ≤ state.currEndTime
  · rw [if_pos busy]
    have total := splitting.calls
    rw [List.flatMap_append, List.flatMap_singleton, TorchCallSeq.calls_new] at total
    refine ⟨by simp, ?_, ?_, splitting.nonempty, by simp, ?_⟩
    · rw [previous, finishTime_last splitting.begun, ← splitting.ends, max_eq_right busy]
    · rw [List.flatMap_append, List.flatMap_singleton, TorchCallSeq.calls_new, List.map_append,
        ← List.append_assoc, total, List.map_append]
    · intro i before lt
      rw [startsAt_concat, ← @startsAt_concat state.seqs (TorchCallSeq.new state.lastSeq)]
      rw [List.length_append, List.length_singleton] at lt
      by_cases isLast : i = entries.length
      · subst isLast
        rw [newest]
        refine iff_of_false ?_ (not_lt.mpr busy)
        intro starts
        have inside := starts.lt splitting.nonempty_all
        rw [splitting.length_eq] at inside
        omega
      · rw [older i before (by omega)]
        exact splitting.starts i before (by omega)
  · rw [if_neg busy]
    have idle := not_le.mp busy
    refine ⟨by simp, ?_, ?_, splitting.nonempty_all, by simp, ?_⟩
    · rw [previous, finishTime_last splitting.begun, ← splitting.ends, max_eq_left idle.le]
    · rw [List.flatMap_append, splitting.calls, List.flatMap_singleton, TorchCallSeq.calls_new,
        List.map_append]
    · intro i before lt
      rw [startsAt_concat, splitting.length_eq]
      rw [List.length_append, List.length_singleton] at lt
      by_cases isLast : i = entries.length
      · subst isLast
        rw [newest]
        exact iff_of_true (Or.inr rfl) idle
      · rw [older i before (by omega), ← splitting.starts i before (by omega)]
        exact or_iff_left isLast

theorem foldl (splitting : Splitting entries state) (rest : List Buffered) :
    Splitting (entries ++ rest) (rest.foldl splitStep state) := by
  induction rest generalizing entries state with
  | nil => simpa using splitting
  | cons entry rest ih => simpa using ih (splitting.step entry)

end Splitting

/-- Splitting loses and reorders no call, makes no empty sequence and begins a new one exactly where
a first-in-first-out device is idle. -/
theorem splitSequences_at_idleness (profiler : Profiler)
    (enabled : profiler.disableSequenceCall = false) (entries : List Buffered) :
    (∀ seq ∈ splitSequences profiler entries, seq.calls ≠ []) ∧
    (splitSequences profiler entries).flatMap TorchCallSeq.calls = entries.map Prod.fst ∧
    ∀ i, 0 < i → i < entries.length →
      (StartsAt (splitSequences profiler entries) i ↔
        finishTime entries (i - 1) < timeAt entries i) := by
  cases entries with
  | nil => simp [splitSequences]
  | cons first rest =>
      have splitting := (Splitting.first first).foldl rest
      simp only [splitSequences, enabled, Bool.false_eq_true, if_false, List.foldl_cons]
      exact ⟨splitting.nonempty_all, splitting.calls, splitting.starts⟩

/-- The second call is issued while the first one runs, the third one when both are finished. -/
theorem splitSequences_at_idleness_threeCalls :
    StartsAt (splitSequences (Environment.plain 0).profiler
      [(⟨leftThread 0, 0, ⟨0, 0⟩, 0⟩, 5000), (⟨leftThread 0, 2, ⟨0, 0⟩, 0⟩, 1500),
        (⟨leftThread 0, 9, ⟨0, 0⟩, 0⟩, 0)]) 2 :=
  ((splitSequences_at_idleness _ rfl _).2.2 2 (by decide) (by decide)).mpr (by decide +kernel)

end Phantora
