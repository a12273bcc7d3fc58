import Mathlib.Data.Fintype.Pigeonhole
import Mathlib.Data.List.Find
import Phantora.Estimator

/-!
# The cache of sequence durations

The durations of a sequence are cached under its digest alone. An answer is
what was measured for the sequence exactly when the first sequence with its
digest is the sequence itself; as there are more sequences than digests, every
hasher has histories where it is not, even with fewer durations than calls.
-/

namespace Phantora

/-- What the estimator is asked for. -/
inductive Estimation where
  | single (info : TorchCallInfo)
  | sequence (calls : List TorchCall)

/-- The sequence that is asked for. -/
def Estimation.infos? : Estimation → Option (List TorchCallInfo)
  | .single _ => none
  | .sequence calls => some (calls.map TorchCall.info)

/-- The durations measured for a sequence from a given measurement on. -/
def measuredFrom (profiler : Profiler) (first : ℕ) (infos : List TorchCallInfo) : List ℕ :=
  infos.mapIdx fun i info => profiler.torch (first + i) 1 info

/-- An estimator with the sequences that it has measured and where their measurements begin. -/
structure Measuring where
  estimator : TorchEstimator := {}
  sequences : List (List TorchCallInfo × ℕ) := []

namespace Measuring

/-- A sequence is measured when its digest is not in the cache. -/
def ask (profiler : Profiler) (measuring : Measuring) : Estimation → Measuring
  | .single info =>
      { measuring with estimator := (measuring.estimator.estimate profiler info).1 }
  | .sequence calls =>
      let infos := calls.map TorchCall.info
      { estimator := (measuring.estimator.estimateSequence profiler calls).1
        sequences :=
          if measuring.estimator.sequenceCache (profiler.hashSequence infos) = none then
            (infos, measuring.estimator.measured) :: measuring.sequences
          else measuring.sequences }

def after (profiler : Profiler) (history : List Estimation) : Measuring :=
  history.foldl (ask profiler) {}

end Measuring

/-- The durations that the estimator answers after a history. -/
def answerAfter (profiler : Profiler) (history : List Estimation) (calls : List TorchCall) :
    List ℕ :=
  ((Measuring.after profiler history).estimator.estimateSequence profiler calls).2

/-- The answer has a duration for each call, and these were measured for the very sequence. -/
structure SoundAnswer (profiler : Profiler) (history : List Estimation) (calls : List TorchCall) :
    Prop where
  length : (answerAfter profiler history calls).length = calls.length
  measured : ∃ first, (calls.map TorchCall.info, first) ∈
      (Measuring.after profiler (history ++ [.sequence calls])).sequences ∧
    answerAfter profiler history calls = measuredFrom profiler first (calls.map TorchCall.info)

/-- The first sequence of the history with a given digest. -/
def firstWith (profiler : Profiler) (history : List Estimation) (digest : ℕ) :
    Option (List TorchCallInfo) :=
  (history.filterMap Estimation.infos?).find? fun infos => profiler.hashSequence infos = digest

section Lemmas

variable {profiler : Profiler} {history : List Estimation}

theorem runAll_eq (profiler : Profiler) (estimator : TorchEstimator) (calls : List TorchCall) :
    (estimator.runAll profiler calls).2 =
        measuredFrom profiler estimator.measured (calls.map TorchCall.info) ∧
      (estimator.runAll profiler calls).1.sequenceCache = estimator.sequenceCache := by
  induction calls generalizing estimator with
  | nil => exact ⟨rfl, rfl⟩
  | cons call calls ih =>
      rcases ih (estimator.run profiler 1 call.info).1 with ⟨durations, cache⟩
      refine ⟨?_, cache⟩
      simp only [TorchEstimator.runAll, durations, measuredFrom, List.map_cons, List.mapIdx_cons]
      simp only [TorchEstimator.run, Nat.add_zero, List.cons.injEq, true_and]
      congr 1
      funext i info
      rw [Nat.add_assoc, Nat.add_comm 1 i]

@[simp]
theorem length_measuredFrom (profiler : Profiler) (first : ℕ) (infos : List TorchCallInfo) :
    (measuredFrom profiler first infos).length = infos.length := by
  simp [measuredFrom]

theorem firstWith_single (info : TorchCallInfo) (digest : ℕ) :
    firstWith profiler (history ++ [.single info]) digest = firstWith profiler history digest := by
  simp [firstWith, Estimation.infos?]

theorem firstWith_sequence (calls : List TorchCall) (digest : ℕ) :
    firstWith profiler (history ++ [.sequence calls]) digest =
      (firstWith profiler history digest).or
        (if profiler.hashSequence (calls.map TorchCall.info) = digest then
          some (calls.map TorchCall.info) else none) := by
  rw [firstWith, List.filterMap_append, List.find?_append]
  congr 1
  by_cases same : profiler.hashSequence (calls.map TorchCall.info) = digest
  · simp [Estimation.infos?, same]
  · simp [Estimation.infos?, same]

theorem estimate_sequenceCache (estimator : TorchEstimator) (info : TorchCallInfo) :
    (estimator.estimate profiler info).1.sequenceCache = estimator.sequenceCache := by
  unfold TorchEstimator.estimate
  split
  · rfl
  · rfl

theorem estimateSequence_hit {estimator : TorchEstimator} {calls : List TorchCall}
    {durations : List ℕ}
    (hit : estimator.sequenceCache (profiler.hashSequence (calls.map TorchCall.info)) =
      some durations) : estimator.estimateSequence profiler calls = (estimator, durations) := by
  simp [TorchEstimator.estimateSequence, hit]

theorem estimateSequence_miss {estimator : TorchEstimator} {calls : List TorchCall}
    (miss : estimator.sequenceCache (profiler.hashSequence (calls.map TorchCall.info)) = none) :
    (estimator.estimateSequence profiler calls).2 =
        measuredFrom profiler estimator.measured (calls.map TorchCall.info) ∧
      (estimator.estimateSequence profiler calls).1.sequenceCache =
        Function.update estimator.sequenceCache
          (profiler.hashSequence (calls.map TorchCall.info))
          (some (measuredFrom profiler estimator.measured (calls.map TorchCall.info))) := by
  rcases runAll_eq profiler estimator calls with ⟨durations, cache⟩
  simp only [TorchEstimator.estimateSequence, miss, durations, cache]
  exact ⟨trivial, trivial⟩

end Lemmas

/-- The cache holds, for each digest, what was measured for the first sequence with the digest. -/
structure Recorded (profiler : Profiler) (history : List Estimation) (measuring : Measuring) :
    Prop where
  absent : ∀ {digest}, firstWith profiler history digest = none →
    measuring.estimator.sequenceCache digest = none
  present : ∀ {digest infos}, firstWith profiler history digest = some infos →
    ∃ first, (infos, first) ∈ measuring.sequences ∧
      measuring.estimator.sequenceCache digest = some (measuredFrom profiler first infos)
  sequences : ∀ {infos first}, (infos, first) ∈ measuring.sequences →
    firstWith profiler history (profiler.hashSequence infos) = some infos

namespace Recorded

variable {profiler : Profiler} {history : List Estimation} {measuring : Measuring}

theorem ask (recorded : Recorded profiler history measuring) (estimation : Estimation) :
    Recorded profiler (history ++ [estimation]) (measuring.ask profiler estimation) := by
  cases estimation with
  | single info =>
      simp only [Measuring.ask]
      refine ⟨?_, ?_, ?_⟩
      · intro digest absent
        rw [firstWith_single] at absent
        rw [estimate_sequenceCache]
        exact recorded.absent absent
      · intro digest infos present
        rw [firstWith_single] at present
        rw [estimate_sequenceCache]
        exact recorded.present present
      · intro infos first mem
        rw [firstWith_single]
        exact recorded.sequences mem
  | sequence calls =>
      simp only [Measuring.ask]
      rcases earlier : firstWith profiler history
          (profiler.hashSequence (calls.map TorchCall.info)) with _ | old
      · have miss := recorded.absent earlier
        rcases estimateSequence_miss miss with ⟨_, cache⟩
        rw [if_pos miss]
        refine ⟨?_, ?_, ?_⟩
        · intro digest absent
          rw [firstWith_sequence, Option.or_eq_none_iff] at absent
          have other : digest ≠ profiler.hashSequence (calls.map TorchCall.info) := by
            rintro rfl
            simp at absent
          dsimp only
          rw [cache, Function.update_of_ne other]
          exact recorded.absent absent.1
        · intro digest infos present
          rw [firstWith_sequence] at present
          by_cases same : digest = profiler.hashSequence (calls.map TorchCall.info)
          · subst same
            rw [earlier, Option.none_or, if_pos rfl, Option.some.injEq] at present
            subst present
            refine ⟨_, List.mem_cons_self, ?_⟩
            dsimp only
            rw [cache, Function.update_self]
          · rw [if_neg (fun equal => same equal.symm), Option.or_none] at present
            rcases recorded.present present with ⟨first, mem, cached⟩
            refine ⟨first, List.mem_cons_of_mem _ mem, ?_⟩
            dsimp only
            rw [cache, Function.update_of_ne same, cached]
        · intro infos first mem
          rw [firstWith_sequence]
          rcases List.mem_cons.mp mem with new | mem
          · rw [Prod.mk.injEq] at new
            rcases new with ⟨rfl, _⟩
            rw [earlier, Option.none_or, if_pos rfl]
          · rw [recorded.sequences mem, Option.some_or]
      · rcases recorded.present earlier with ⟨oldFirst, oldMem, hit⟩
        rw [estimateSequence_hit hit, if_neg (by rw [hit]; exact Option.some_ne_none _)]
        have same : ∀ digest, firstWith profiler (history ++ [.sequence calls]) digest =
            firstWith profiler history digest := by
          intro digest
          rw [firstWith_sequence]
          by_cases equal : profiler.hashSequence (calls.map TorchCall.info) = digest
          · subst equal
            rw [earlier, Option.some_or]
          · rw [if_neg equal, Option.or_none]
        refine ⟨?_, ?_, ?_⟩
        · intro digest absent
          exact recorded.absent (same digest ▸ absent)
        · intro digest infos present
          exact recorded.present (same digest ▸ present)
        · intro infos first mem
          rw [same]
          exact recorded.sequences mem

theorem of_history (profiler : Profiler) (history : List Estimation) :
    Recorded profiler history (Measuring.after profiler history) := by
  induction history using List.reverseRecOn with
  | nil =>
      exact ⟨fun _ => rfl, fun present => absurd present.symm (Option.some_ne_none _),
        fun mem => absurd mem List.not_mem_nil⟩
  | append_singleton history estimation ih =>
      rw [Measuring.after, List.foldl_append]
      exact ih.ask estimation

end Recorded

theorem after_concat (profiler : Profiler) (history : List Estimation) (estimation : Estimation) :
    Measuring.after profiler (history ++ [estimation]) =
      (Measuring.after profiler history).ask profiler estimation := by
  rw [Measuring.after, List.foldl_append]
  rfl

/-- An answer is sound exactly when the first sequence with its digest, if there is one, is the very
sequence. -/
theorem soundAnswer_iff (profiler : Profiler) (history : List Estimation) (calls : List TorchCall) :
    SoundAnswer profiler history calls ↔
      ∀ infos, firstWith profiler history (profiler.hashSequence (calls.map TorchCall.info)) =
        some infos → infos = calls.map TorchCall.info := by
  have recorded := Recorded.of_history profiler history
  have later := Recorded.of_history profiler (history ++ [.sequence calls])
  constructor
  · rintro ⟨_, first, mem, _⟩ infos earlier
    have own := later.sequences mem
    rw [firstWith_sequence, earlier, Option.some_or, Option.some.injEq] at own
    exact own
  · intro alone
    rcases earlier : firstWith profiler history
        (profiler.hashSequence (calls.map TorchCall.info)) with _ | infos
    · have miss := recorded.absent earlier
      rcases estimateSequence_miss miss with ⟨answer, _⟩
      refine ⟨?_, (Measuring.after profiler history).estimator.measured, ?_, answer⟩
      · rw [answerAfter, answer, length_measuredFrom, List.length_map]
      · rw [after_concat]
        simp only [Measuring.ask]
        rw [if_pos miss]
        exact List.mem_cons_self
    · have own := alone infos earlier
      subst own
      rcases recorded.present earlier with ⟨first, mem, hit⟩
      have answer : answerAfter profiler history calls =
          measuredFrom profiler first (calls.map TorchCall.info) := by
        rw [answerAfter, estimateSequence_hit hit]
      refine ⟨?_, first, ?_, answer⟩
      · rw [answer, length_measuredFrom, List.length_map]
      · rw [after_concat]
        simp only [Measuring.ask]
        rw [if_neg (by rw [hit]; exact Option.some_ne_none _)]
        exact mem

/-- A number of equal calls. -/
def repeated (n : ℕ) : List TorchCall :=
  List.replicate n ⟨⟨⟨"host", 0⟩, 0⟩, 0, ⟨0, 0⟩, 0⟩

/-- Whatever the hasher, some sequence is answered with too few durations after another one. -/
theorem exists_short_answer (profiler : Profiler)
    (digests : ∀ infos, profiler.hashSequence infos < 2 ^ 64) :
    ∃ earlier calls : List TorchCall,
      (answerAfter profiler [.sequence earlier] calls).length < calls.length := by
  let digest : ℕ → Fin (2 ^ 64) := fun n =>
    ⟨profiler.hashSequence ((repeated n).map TorchCall.info), digests _⟩
  have shorter : ∀ m n, m < n → digest m = digest n → ∃ earlier calls : List TorchCall,
      (answerAfter profiler [.sequence earlier] calls).length < calls.length := by
    intro m n lt same
    refine ⟨repeated m, repeated n, ?_⟩
    have equal : profiler.hashSequence ((repeated m).map TorchCall.info) =
        profiler.hashSequence ((repeated n).map TorchCall.info) := congrArg Fin.val same
    have found : firstWith profiler [.sequence (repeated m)]
        (profiler.hashSequence ((repeated n).map TorchCall.info)) =
          some ((repeated m).map TorchCall.info) := by
      simp [firstWith, Estimation.infos?, equal]
    rcases (Recorded.of_history profiler [.sequence (repeated m)]).present found with
      ⟨first, _, hit⟩
    rw [answerAfter, estimateSequence_hit hit, length_measuredFrom, List.length_map]
    simpa [repeated] using lt
  rcases Finite.exists_ne_map_eq_of_infinite digest with ⟨m, n, differs, same⟩
  rcases Nat.lt_or_gt_of_ne differs with lt | gt
  · exact shorter m n lt same
  · exact shorter n m gt same.symm

/-- A hasher that gives every sequence the same digest. -/
def constantDigest : Profiler where
  memcpy := fun _ _ _ => 1000
  flashAttn := fun _ _ => 1000
  torch := fun number _ _ => number
  hashSequence := fun _ => 0
  disableSequenceCall := false

/-- After a sequence of one call, one of two calls with its digest has one duration only. -/
theorem not_soundAnswer_repeated :
    ¬∀ profiler : Profiler, (∀ infos, profiler.hashSequence infos < 2 ^ 64) →
      ∀ (history : List Estimation) (calls : List TorchCall),
        SoundAnswer profiler history calls := by
  intro claim
  have sound := claim constantDigest (fun _ => by simp [constantDigest])
    [.sequence (repeated 1)] (repeated 2)
  have short : (answerAfter constantDigest [.sequence (repeated 1)] (repeated 2)).length = 1 := by
    decide
  have length := sound.length
  rw [short] at length
  cases length

end Phantora
