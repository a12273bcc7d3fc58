import Mathlib.Algebra.Group.Defs
import Mathlib.Data.List.Basic
import Mathlib.Data.List.Induction
import Mathlib.Order.Lattice

/-!
# Spans of jobs in a list

Each job of a list follows jobs that stand before it. It starts at its release or
when the last of these has ended, whichever is later, so that the spans of all jobs
are computed in one pass, and jobs that are added later change none of them.
-/

namespace Forward

universe u

variable {τ : Type u} [LinearOrder τ]

/-- The latest of a time and some others. -/
def latest (time : τ) (others : List τ) : τ :=
  others.foldl max time

section Latest

variable {time other : τ} {others others' : List τ}

@[simp]
theorem latest_nil (time : τ) : latest time [] = time := rfl

theorem latest_cons (time other : τ) (others : List τ) :
    latest time (other :: others) = latest (max time other) others := rfl

theorem le_latest (time : τ) (others : List τ) : time ≤ latest time others := by
  induction others generalizing time with
  | nil => exact le_rfl
  | cons other others ih => exact (le_max_left time other).trans (ih _)

theorem le_latest_of_mem (time : τ) (mem : other ∈ others) : other ≤ latest time others := by
  induction others generalizing time with
  | nil => cases mem
  | cons head others ih =>
      rcases List.mem_cons.mp mem with rfl | mem
      · exact (le_max_right time other).trans (le_latest _ others)
      · exact ih _ mem

theorem latest_le {bound : τ} (le : time ≤ bound) (upper : ∀ other ∈ others, other ≤ bound) :
    latest time others ≤ bound := by
  induction others generalizing time with
  | nil => exact le
  | cons head others ih =>
      refine ih (max_le le (upper head List.mem_cons_self)) fun other mem => ?_
      exact upper other (List.mem_cons_of_mem _ mem)

/-- The latest time is the one that is among them and not before any of them. -/
theorem latest_eq_of {last : τ} (among : last = time ∨ last ∈ others) (le : time ≤ last)
    (upper : ∀ other ∈ others, other ≤ last) : latest time others = last := by
  refine le_antisymm (latest_le le upper) ?_
  rcases among with rfl | mem
  · exact le_latest _ others
  · exact le_latest_of_mem time mem

/-- The order of the times does not matter. -/
theorem latest_congr (time : τ) (same : ∀ other, other ∈ others ↔ other ∈ others') :
    latest time others = latest time others' := by
  refine le_antisymm (latest_le (le_latest _ _) ?_) (latest_le (le_latest _ _) ?_)
  · exact fun other mem => le_latest_of_mem time ((same other).mp mem)
  · exact fun other mem => le_latest_of_mem time ((same other).mpr mem)

end Latest

/-- A job with the positions of the jobs that it follows. -/
structure Job (τ : Type u) where
  follows : List ℕ
  release : τ
  duration : τ

/-- The ends of the jobs at some positions. -/
def endsAt (spans : List (τ × τ)) (positions : List ℕ) : List τ :=
  positions.filterMap fun position => (spans[position]?).map Prod.snd

omit [LinearOrder τ] in
theorem mem_endsAt {spans : List (τ × τ)} {positions : List ℕ} {time : τ} :
    time ∈ endsAt spans positions ↔
      ∃ position ∈ positions, ∃ start, spans[position]? = some (start, time) := by
  simp [endsAt]

omit [LinearOrder τ] in
theorem endsAt_append (spans : List (τ × τ)) (positions others : List ℕ) :
    endsAt spans (positions ++ others) = endsAt spans positions ++ endsAt spans others :=
  List.filterMap_append ..

omit [LinearOrder τ] in
/-- Only the spans at the positions matter. -/
theorem endsAt_congr {spans spans' : List (τ × τ)} {positions : List ℕ}
    (same : ∀ position ∈ positions, spans[position]? = spans'[position]?) :
    endsAt spans positions = endsAt spans' positions :=
  List.filterMap_congr fun position mem => by rw [same position mem]

variable [Add τ]

/-- The span of a job, from the spans of those before it. -/
def Job.span (spans : List (τ × τ)) (job : Job τ) : τ × τ :=
  let start := latest job.release (endsAt spans job.follows)
  (start, start + job.duration)

/-- The spans of all jobs. -/
def spans (jobs : List (Job τ)) : List (τ × τ) :=
  jobs.foldl (fun spans job => spans ++ [job.span spans]) []

variable {jobs : List (Job τ)} {job : Job τ} {position : ℕ}

theorem spans_concat (jobs : List (Job τ)) (job : Job τ) :
    spans (jobs ++ [job]) = spans jobs ++ [job.span (spans jobs)] := by
  rw [spans, List.foldl_append]
  rfl

@[simp]
theorem length_spans (jobs : List (Job τ)) : (spans jobs).length = jobs.length := by
  induction jobs using List.reverseRecOn with
  | nil => rfl
  | append_singleton jobs job ih => simp [spans_concat, ih]

/-- Jobs that are added later change no span. -/
theorem getElem?_spans_concat (job : Job τ) (old : position < jobs.length) :
    (spans (jobs ++ [job]))[position]? = (spans jobs)[position]? := by
  rw [spans_concat, List.getElem?_append_left (by rwa [length_spans])]

/-- A job has the span that the jobs that it follows give it. -/
theorem getElem?_spans (known : jobs[position]? = some job)
    (earlier : ∀ d ∈ job.follows, d < position) :
    (spans jobs)[position]? = some (job.span (spans jobs)) := by
  induction jobs using List.reverseRecOn with
  | nil => simp at known
  | append_singleton jobs last ih =>
      have same : ∀ d < jobs.length, (spans jobs)[d]? = (spans (jobs ++ [last]))[d]? :=
        fun d old => (getElem?_spans_concat last old).symm
      have stays : position ≤ jobs.length →
          job.span (spans jobs) = job.span (spans (jobs ++ [last])) := by
        intro le
        rw [Job.span, Job.span,
          endsAt_congr fun d mem => same d ((earlier d mem).trans_le le)]
      rcases Nat.lt_or_ge position jobs.length with old | new
      · rw [List.getElem?_append_left old] at known
        rw [getElem?_spans_concat last old, ih known, stays old.le]
      · rw [List.getElem?_append_right new, List.getElem?_singleton] at known
        split at known
        · rename_i zero
          have isLast : position = jobs.length := by omega
          rw [← stays isLast.le, spans_concat, isLast, ← length_spans jobs]
          rw [Option.some.injEq] at known
          simp [known]
        · cases known

end Forward
