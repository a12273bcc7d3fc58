import Mathlib.Algebra.BigOperators.Intervals
import Mathlib.Algebra.BigOperators.Ring.Finset
import Mathlib.Tactic.Ring
import Phantora.Netsim.Representation

/-!
# Speed histories

The speed history of a flow says at which speed the flow moved at every time, so
that unwinding the history to a time takes back exactly the bytes sent since.
-/

namespace Phantora.Netsim

open Outcome Finset

/-- The speed at a time: the last entry that does not start later counts. -/
def speedAt : List SpeedHistoryEntry → Timestamp → ℚ
  | [], _ => 0
  | entry :: rest, time => if entry.start ≤ time then entry.speed else speedAt rest time

/-- The bytes that a flow moves in a nanosecond. -/
def bytesPerNs (speed : ℚ) : ℚ :=
  speed / 1000000000 / 8

/-- The entries are sorted, the last one first, and none starts after `ts`. -/
structure Chronicle (history : List SpeedHistoryEntry) (ts : Timestamp) : Prop where
  sorted : history.Pairwise fun later earlier => earlier.start ≤ later.start
  past : ∀ entry ∈ history, entry.start ≤ ts

theorem Chronicle.nil (ts : Timestamp) : Chronicle [] ts :=
  ⟨List.Pairwise.nil, fun _ mem => absurd mem List.not_mem_nil⟩

theorem Chronicle.cons {history : List SpeedHistoryEntry} {ts start : Timestamp} {speed : ℚ}
    (chronicle : Chronicle history start) (le : start ≤ ts) :
    Chronicle (⟨start, speed⟩ :: history) ts where
  sorted := List.pairwise_cons.mpr ⟨chronicle.past, chronicle.sorted⟩
  past entry mem := by
    rcases List.mem_cons.mp mem with rfl | mem
    · exact le
    · exact (chronicle.past entry mem).trans le

theorem Chronicle.tail {entry : SpeedHistoryEntry} {history : List SpeedHistoryEntry}
    {ts : Timestamp} (chronicle : Chronicle (entry :: history) ts) :
    Chronicle history entry.start :=
  ⟨(List.pairwise_cons.mp chronicle.sorted).2, (List.pairwise_cons.mp chronicle.sorted).1⟩

theorem speedAt_cons_of_lt {history : List SpeedHistoryEntry} {entry : SpeedHistoryEntry}
    {time : Timestamp} (before : time < entry.start) :
    speedAt (entry :: history) time = speedAt history time :=
  if_neg (not_le.mpr before)

theorem speedAt_cons_of_le {history : List SpeedHistoryEntry} {entry : SpeedHistoryEntry}
    {time : Timestamp} (after : entry.start ≤ time) :
    speedAt (entry :: history) time = entry.speed :=
  if_pos after

/-- The entries that a rollback to `pastTs` keeps. -/
def keptHistory (pastTs : Timestamp) (history : List SpeedHistoryEntry) :
    List SpeedHistoryEntry :=
  history.dropWhile fun entry => pastTs ≤ entry.start

theorem speedAt_keptHistory {history : List SpeedHistoryEntry} {pastTs time : Timestamp}
    (before : time < pastTs) : speedAt (keptHistory pastTs history) time =
    speedAt history time := by
  induction history with
  | nil => rfl
  | cons entry rest ih =>
      by_cases dropped : pastTs ≤ entry.start
      · rw [keptHistory, List.dropWhile_cons_of_pos (by simpa using dropped),
          speedAt_cons_of_lt (before.trans_le dropped)]
        exact ih
      · rw [keptHistory, List.dropWhile_cons_of_neg (by simpa using dropped)]

theorem Chronicle.keptHistory {history : List SpeedHistoryEntry} {ts : Timestamp}
    (chronicle : Chronicle history ts) (pastTs : Timestamp) :
    Chronicle (keptHistory pastTs history) pastTs := by
  induction history generalizing ts with
  | nil => exact .nil pastTs
  | cons entry rest ih =>
      by_cases dropped : pastTs ≤ entry.start
      · rw [Netsim.keptHistory, List.dropWhile_cons_of_pos (by simpa using dropped)]
        exact ih chronicle.tail
      · rw [Netsim.keptHistory, List.dropWhile_cons_of_neg (by simpa using dropped)]
        exact chronicle.tail.cons (Nat.le_of_lt (not_le.mp dropped))

namespace NetState

/-- Unwinding takes back what the flow sent since `pastTs`, nanosecond by nanosecond. -/
theorem unwindHistory_eq {history : List SpeedHistoryEntry} {pastTs lastTs : Timestamp}
    (chronicle : Chronicle history lastTs) (past : pastTs ≤ lastTs) (reverted : ℚ) :
    unwindHistory pastTs lastTs reverted history =
      (reverted + ∑ t ∈ Ico pastTs lastTs, bytesPerNs (speedAt history t),
        keptHistory pastTs history) := by
  induction history generalizing lastTs reverted with
  | nil => simp [unwindHistory, keptHistory, speedAt, bytesPerNs]
  | cons entry rest ih =>
      have recent : entry.start ≤ lastTs := chronicle.past entry List.mem_cons_self
      have constant : ∀ {from_ : Timestamp}, entry.start ≤ from_ →
          ∑ t ∈ Ico from_ lastTs, bytesPerNs (speedAt (entry :: rest) t) =
            ((lastTs - from_ : ℕ) : ℚ) * entry.speed / (8 * 1000000000) := by
        intro from_ after
        rw [sum_congr rfl fun t mem => by
          rw [speedAt_cons_of_le (after.trans (mem_Ico.mp mem).1)], sum_const, Nat.card_Ico,
          nsmul_eq_mul, bytesPerNs]
        ring
      rw [unwindHistory]
      by_cases kept : entry.start < pastTs
      · rw [if_pos kept, max_eq_right kept.le, keptHistory,
          List.dropWhile_cons_of_neg (by simpa using kept), constant kept.le]
      · have dropped : pastTs ≤ entry.start := not_lt.mp kept
        have before : ∑ t ∈ Ico pastTs entry.start, bytesPerNs (speedAt (entry :: rest) t) =
            ∑ t ∈ Ico pastTs entry.start, bytesPerNs (speedAt rest t) :=
          sum_congr rfl fun t mem => by rw [speedAt_cons_of_lt (mem_Ico.mp mem).2]
        rw [if_neg kept, max_eq_left dropped, ih chronicle.tail dropped, keptHistory, keptHistory,
          List.dropWhile_cons_of_pos (by simpa using dropped),
          ← sum_Ico_consecutive _ dropped recent, before, constant le_rfl,
          add_assoc, add_comm (∑ t ∈ Ico pastTs entry.start, bytesPerNs (speedAt rest t))]

end NetState

end Phantora.Netsim
