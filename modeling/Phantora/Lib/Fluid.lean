import Mathlib.Algebra.BigOperators.Intervals
import Mathlib.Algebra.Order.BigOperators.Group.Finset
import Mathlib.Data.Finset.Filter

/-!
# Fluid schedules

Jobs of given sizes start at given times. From its start on a job is active until
it has been granted its size; in every unit of time the active jobs are granted
amounts that depend on which jobs are active. Jobs that start later change
nothing before they start, and while the same jobs are active everything moves on
at constant rates.
-/

namespace Fluid

open Finset

universe u v

variable {ι : Type u} {α : Type v} [DecidableEq ι] [AddCommMonoid α] [LinearOrder α]

/-- Jobs with their starts and sizes, and what a set of active jobs is granted in a unit of time. -/
structure Load (ι : Type u) (α : Type v) where
  jobs : Finset ι
  start : ι → ℕ
  size : ι → α
  rate : Finset ι → ι → α

namespace Load

variable (load : Load ι α)

/-- The jobs that have started at a time and lack something of their size. -/
def lacking (granted : ι → α) (time : ℕ) : Finset ι :=
  load.jobs.filter fun job => load.start job ≤ time ∧ granted job < load.size job

/-- What a job has been granted before a time. -/
def sent : ℕ → ι → α
  | 0, _ => 0
  | time + 1, job => sent time job + if job ∈ load.lacking (sent time) time then
      load.rate (load.lacking (sent time) time) job else 0

/-- The jobs that are active at a time. -/
def active (time : ℕ) : Finset ι :=
  load.lacking (load.sent time) time

/-- What a job is granted in the unit of time from a time on. -/
def rateAt (time : ℕ) (job : ι) : α :=
  if job ∈ load.active time then load.rate (load.active time) job else 0

/-- The job first has its size at the time. -/
structure Finishes (job : ι) (time : ℕ) : Prop where
  started : load.start job ≤ time
  complete : load.size job ≤ load.sent time job
  first : ∀ earlier, load.start job ≤ earlier → earlier < time →
    load.sent earlier job < load.size job

variable {load} {job : ι} {time later : ℕ}

theorem sent_zero : load.sent 0 job = 0 := rfl

theorem sent_succ : load.sent (time + 1) job = load.sent time job + load.rateAt time job := rfl

theorem mem_active :
    job ∈ load.active time ↔
      job ∈ load.jobs ∧ load.start job ≤ time ∧ load.sent time job < load.size job := by
  simp [active, lacking]

theorem rateAt_of_active (active : job ∈ load.active time) :
    load.rateAt time job = load.rate (load.active time) job :=
  if_pos active

/-- The rates depend on which jobs are active. -/
theorem rateAt_congr (same : load.active later = load.active time) :
    load.rateAt later = load.rateAt time := by
  funext job
  rw [rateAt, same, ← rateAt]

theorem rateAt_of_lt_start (early : time < load.start job) : load.rateAt time job = 0 :=
  if_neg fun active => Nat.lt_irrefl _ (early.trans_le (mem_active.mp active).2.1)

theorem rateAt_of_size_le (complete : load.size job ≤ load.sent time job) :
    load.rateAt time job = 0 :=
  if_neg fun active => absurd complete (mem_active.mp active).2.2.not_ge

theorem rateAt_of_not_mem (unknown : job ∉ load.jobs) : load.rateAt time job = 0 :=
  if_neg fun active => unknown (mem_active.mp active).1

/-- Between two times a job is granted the sum of its rates. -/
theorem sent_eq_add_sum (le : time ≤ later) :
    load.sent later job = load.sent time job + ∑ t ∈ Ico time later, load.rateAt t job := by
  induction later, le using Nat.le_induction with
  | base => simp
  | succ later le ih => rw [sent_succ, ih, sum_Ico_succ_top le, add_assoc]

theorem sent_eq_zero (early : time ≤ load.start job) : load.sent time job = 0 := by
  rw [sent_eq_add_sum (Nat.zero_le time), sent_zero, zero_add]
  refine sum_eq_zero fun t mem => rateAt_of_lt_start ?_
  exact (mem_Ico.mp mem).2.trans_le early

theorem sent_of_not_mem (unknown : job ∉ load.jobs) : load.sent time job = 0 := by
  rw [sent_eq_add_sum (Nat.zero_le time), sent_zero, zero_add]
  exact sum_eq_zero fun t _ => rateAt_of_not_mem unknown

/-- A job is granted the sum of its rates since its start. -/
theorem sent_eq_sum (started : load.start job ≤ time) :
    load.sent time job = ∑ t ∈ Ico (load.start job) time, load.rateAt t job := by
  rw [sent_eq_add_sum started, sent_eq_zero le_rfl, zero_add]

/-- A job that has its size is granted nothing more. -/
theorem sent_of_complete (complete : load.size job ≤ load.sent time job) (le : time ≤ later) :
    load.sent later job = load.sent time job := by
  induction later, le using Nat.le_induction with
  | base => rfl
  | succ later le ih =>
      rw [sent_succ, rateAt_of_size_le (complete.trans ih.ge), add_zero, ih]

/-- A job that lacks something has lacked something before. -/
theorem lacks_before (lacks : load.sent later job < load.size job) (le : time ≤ later) :
    load.sent time job < load.size job := by
  by_contra complete
  rw [sent_of_complete (not_lt.mp complete) le] at lacks
  exact complete lacks

theorem sent_nonneg [IsOrderedAddMonoid α] (nonneg : ∀ active job, 0 ≤ load.rate active job) :
    0 ≤ load.sent time job := by
  induction time with
  | zero => exact le_rfl
  | succ time ih =>
      rw [sent_succ]
      refine add_nonneg ih ?_
      rw [rateAt]
      split
      · exact nonneg _ _
      · exact le_rfl

section Together

variable {weight : ι → ℕ} {capacity : α}

/-- In a unit of time the jobs take no more than any set of active jobs may. -/
theorem sum_rateAt_le (fits : ∀ active ⊆ load.jobs,
      ∑ job ∈ active, weight job • load.rate active job ≤ capacity) (time : ℕ) :
    ∑ job ∈ load.jobs, weight job • load.rateAt time job ≤ capacity := by
  have subset : load.active time ⊆ load.jobs := filter_subset _ _
  refine le_trans (le_of_eq ?_) (fits _ subset)
  rw [← sum_subset subset fun job _ idle => by rw [rateAt, if_neg idle, nsmul_zero]]
  exact sum_congr rfl fun job active => by rw [rateAt_of_active active]

/-- Nor do they until a time. -/
theorem sum_sent_le [IsOrderedAddMonoid α] (fits : ∀ active ⊆ load.jobs,
      ∑ job ∈ active, weight job • load.rate active job ≤ capacity) (time : ℕ) :
    ∑ job ∈ load.jobs, weight job • load.sent time job ≤ time • capacity := by
  induction time with
  | zero => simp [sent_zero]
  | succ time ih =>
      simp only [sent_succ, nsmul_add, sum_add_distrib, succ_nsmul]
      exact add_le_add ih (sum_rateAt_le fits time)

end Together

theorem Finishes.unique {end_ end' : ℕ} (left : load.Finishes job end_)
    (right : load.Finishes job end') : end_ = end' := by
  rcases Nat.lt_trichotomy end_ end' with before | same | after
  · exact absurd left.complete (right.first end_ left.started before).not_ge
  · exact same
  · exact absurd right.complete (left.first end' right.started after).not_ge

/-- The time at which a job finishes, if it does. -/
noncomputable def finish (load : Load ι α) (job : ι) : ℕ := by
  classical
  exact if finishes : ∃ time, load.Finishes job time then finishes.choose else 0

theorem Finishes.finish_eq {end_ : ℕ} (finishes : load.Finishes job end_) :
    load.finish job = end_ := by
  have some : ∃ time, load.Finishes job time := ⟨end_, finishes⟩
  rw [finish, dif_pos some]
  exact some.choose_spec.unique finishes

/-- What a finished job has been granted. -/
theorem Finishes.sent_eq {end_ : ℕ} (finishes : load.Finishes job end_) (le : end_ ≤ time) :
    load.sent time job = load.sent end_ job :=
  sent_of_complete finishes.complete le

theorem Finishes.complete_of_le {end_ : ℕ} (finishes : load.Finishes job end_)
    (le : end_ ≤ time) : load.size job ≤ load.sent time job :=
  finishes.complete.trans (finishes.sent_eq le).ge

/-- The second load has the jobs of the first one, and others that start at `time` or later. -/
structure Extends (load load' : Load ι α) (time : ℕ) : Prop where
  subset : load.jobs ⊆ load'.jobs
  later : ∀ job ∈ load'.jobs, job ∉ load.jobs → time ≤ load'.start job
  start : load'.start = load.start
  size : load'.size = load.size
  rate : load'.rate = load.rate

namespace Extends

variable {load' : Load ι α} {start : ℕ}

omit [AddCommMonoid α] in
theorem lacking (extends_ : Extends load load' start) (before : time < start) (granted : ι → α) :
    load'.lacking granted time = load.lacking granted time := by
  ext job
  simp only [Load.lacking, mem_filter, extends_.start, extends_.size]
  constructor
  · rintro ⟨mem, started, lacks⟩
    refine ⟨?_, started, lacks⟩
    by_contra new
    have after := extends_.later job mem new
    rw [extends_.start] at after
    omega
  · rintro ⟨mem, started, lacks⟩
    exact ⟨extends_.subset mem, started, lacks⟩

/-- Until the new jobs start everything is granted as without them. -/
theorem sent (extends_ : Extends load load' start) (le : time ≤ start) :
    load'.sent time = load.sent time := by
  induction time with
  | zero => rfl
  | succ time ih =>
      funext job
      simp only [Load.sent, ih (Nat.le_of_lt le), extends_.lacking le, extends_.rate]

theorem active (extends_ : Extends load load' start) (before : time < start) :
    load'.active time = load.active time := by
  rw [Load.active, extends_.sent before.le, extends_.lacking before, ← Load.active]

theorem rateAt (extends_ : Extends load load' start) (before : time < start) :
    load'.rateAt time = load.rateAt time := by
  funext job
  rw [Load.rateAt, extends_.active before, extends_.rate, ← Load.rateAt]

theorem finishes (extends_ : Extends load load' start) {end_ : ℕ} (le : end_ ≤ start) :
    load'.Finishes job end_ ↔ load.Finishes job end_ := by
  have same : ∀ earlier ≤ end_, load'.sent earlier job = load.sent earlier job :=
    fun earlier before => congrFun (extends_.sent (before.trans le)) job
  constructor
  · rintro ⟨started, complete, first⟩
    rw [extends_.start] at started first
    rw [extends_.size, same end_ le_rfl] at complete
    refine ⟨started, complete, fun earlier after before => ?_⟩
    rw [← same earlier before.le, ← extends_.size]
    exact first earlier after before
  · rintro ⟨started, complete, first⟩
    rw [← extends_.start] at started first
    rw [← extends_.size, ← same end_ le_rfl] at complete
    refine ⟨started, complete, fun earlier after before => ?_⟩
    rw [same earlier before.le, extends_.size]
    exact first earlier after before

end Extends

/-- No job starts and none finishes between two times. -/
structure Steady (load : Load ι α) (time duration : ℕ) : Prop where
  starts : ∀ job ∈ load.jobs, load.start job ≤ time ∨ time + duration ≤ load.start job
  lacks : ∀ job ∈ load.active time, ∀ elapsed < duration,
    load.sent time job + elapsed • load.rate (load.active time) job < load.size job

namespace Steady

variable {duration elapsed : ℕ}

/-- As long as nothing starts or finishes, the rates add up. -/
theorem sent (steady : load.Steady time duration) (le : elapsed ≤ duration) (job : ι) :
    load.sent (time + elapsed) job = load.sent time job + elapsed • load.rateAt time job ∧
      (elapsed < duration → load.active (time + elapsed) = load.active time) := by
  have unchanged : ∀ {elapsed}, elapsed < duration → (∀ job, load.sent (time + elapsed) job =
      load.sent time job + elapsed • load.rateAt time job) →
      load.active (time + elapsed) = load.active time := by
    intro elapsed lt moved
    ext job
    rw [mem_active, mem_active, moved]
    constructor
    · rintro ⟨mem, started, lacks⟩
      refine ⟨mem, (steady.starts job mem).resolve_right (by omega), ?_⟩
      by_contra complete
      rw [rateAt_of_size_le (not_lt.mp complete), nsmul_zero, add_zero] at lacks
      exact complete lacks
    · rintro ⟨mem, started, lacks⟩
      have isActive : job ∈ load.active time := mem_active.mpr ⟨mem, started, lacks⟩
      refine ⟨mem, started.trans (Nat.le_add_right _ _), ?_⟩
      rw [rateAt_of_active isActive]
      exact steady.lacks job isActive elapsed lt
  induction elapsed generalizing job with
  | zero => exact ⟨by simp, fun _ => rfl⟩
  | succ elapsed ih =>
      have before : elapsed < duration := le
      have same := (ih before.le job).2 before
      have moved : ∀ job, load.sent (time + (elapsed + 1)) job =
          load.sent time job + (elapsed + 1) • load.rateAt time job := by
        intro job
        rw [← Nat.add_assoc, sent_succ, (ih before.le job).1, rateAt_congr same, succ_nsmul,
          add_assoc]
      exact ⟨moved job, fun lt => unchanged lt moved⟩

theorem rateAt (steady : load.Steady time duration) (lt : elapsed < duration) (job : ι) :
    load.rateAt (time + elapsed) job = load.rateAt time job :=
  congrFun (rateAt_congr ((steady.sent lt.le job).2 lt)) job

end Steady

end Load

end Fluid
