import Mathlib.Algebra.Order.Monoid.Unbundled.Basic
import Mathlib.Order.Bounds.Basic
import Mathlib.Order.WellFounded

/-!
# Longest paths

Tasks that are released at a time, follow other tasks and take a duration. When
every task starts as soon as it may, it starts at the length of the longest path
that leads to it.
-/

namespace LongestPath

universe u v

/-- Tasks with what they follow, when they are released and how long they take. -/
structure Tasks (ν : Type u) (τ : Type v) where
  follows : ν → ν → Prop
  release : ν → τ
  duration : ν → τ

variable {ν : Type u} {τ : Type v} [Preorder τ] [Add τ] {tasks : Tasks ν τ} {start : ν → τ}

/-- A path to a task: the release of its first task and the durations of all but the last. -/
inductive Tasks.Path (tasks : Tasks ν τ) : ν → τ → Prop where
  | release (e : ν) : tasks.Path e (tasks.release e)
  | follow {e d : ν} {length : τ} :
      tasks.follows e d → tasks.Path d length → tasks.Path e (length + tasks.duration d)

/-- The times before which a task may not start. -/
def Tasks.bounds (tasks : Tasks ν τ) (start : ν → τ) (e : ν) : Set τ :=
  {time | time = tasks.release e ∨ ∃ d, tasks.follows e d ∧ time = start d + tasks.duration d}

/-- The tasks of a set start as soon as they may, after those that they follow. -/
def Tasks.Scheduled (tasks : Tasks ν τ) (start : ν → τ) (done : Set ν) : Prop :=
  ∀ e ∈ done, (∀ d, tasks.follows e d → d ∈ done) ∧ IsGreatest (tasks.bounds start e) (start e)

namespace Tasks.Scheduled

variable {done : Set ν}

theorem path_le [AddRightMono τ] (scheduled : tasks.Scheduled start done) {e : ν} {length : τ}
    (path : tasks.Path e length) (mem : e ∈ done) : length ≤ start e := by
  induction path with
  | release e => exact (scheduled e mem).2.2 (Or.inl rfl)
  | @follow e d length follows _ ih =>
      have earlier := ih ((scheduled e mem).1 d follows)
      have bound : start d + tasks.duration d ≤ start e :=
        (scheduled e mem).2.2 (Or.inr ⟨d, follows, rfl⟩)
      exact (add_le_add_left earlier _).trans bound

theorem path_start (scheduled : tasks.Scheduled start done)
    (founded : WellFounded fun d e => tasks.follows e d) {e : ν} (mem : e ∈ done) :
    tasks.Path e (start e) := by
  induction e using founded.induction with
  | _ e ih =>
      rcases (scheduled e mem).2.1 with released | ⟨d, follows, last⟩
      · exact released ▸ .release e
      · rw [last]
        exact .follow follows (ih d follows ((scheduled e mem).1 d follows))

/-- A task starts at the length of the longest path to it. -/
theorem isGreatest_path [AddRightMono τ] (scheduled : tasks.Scheduled start done)
    (founded : WellFounded fun d e => tasks.follows e d) {e : ν} (mem : e ∈ done) :
    IsGreatest {length | tasks.Path e length} (start e) :=
  ⟨scheduled.path_start founded mem, fun _ path => scheduled.path_le path mem⟩

end Tasks.Scheduled

end LongestPath
