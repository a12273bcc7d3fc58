import Mathlib.Data.List.Basic

/-!
# Runs of transition systems

A transition system takes inputs one at a time. `Reached` relates the inputs
of a run to the state at its end, so that an invariant may speak about both. A
run may keep a log of the calls that are done.
-/

namespace Runs

universe u v

variable {σ : Type u} {ι : Type v} {init : σ → Prop} {step strict : σ → ι → σ → Prop}

/-- The run on `inputs` from an initial state ends in a given state. -/
inductive Reached (init : σ → Prop) (step : σ → ι → σ → Prop) : List ι → σ → Prop where
  | start {s : σ} : init s → Reached init step [] s
  | step {inputs : List ι} {s s' : σ} {input : ι} :
      Reached init step inputs s → step s input s' → Reached init step (inputs ++ [input]) s'

/-- An inductive invariant of the inputs and the state holds in every state reached. -/
theorem Reached.invariant (P : List ι → σ → Prop) (start : ∀ {s}, init s → P [] s)
    (preserved : ∀ {inputs s input s'}, P inputs s → step s input s' → P (inputs ++ [input]) s')
    {inputs : List ι} {s : σ} (reached : Reached init step inputs s) : P inputs s := by
  induction reached with
  | start initial => exact start initial
  | step _ taken ih => exact preserved ih taken

/-- A run all of whose steps are steps of another system is a run of that system. -/
theorem Reached.mono (weaken : ∀ {s input s'}, strict s input s' → step s input s')
    {inputs : List ι} {s : σ} (reached : Reached init strict inputs s) :
    Reached init step inputs s := by
  induction reached with
  | start initial => exact .start initial
  | step _ taken ih => exact ih.step (weaken taken)

/-- The run computed by a function that takes all inputs. -/
theorem reached_of_foldlM {ε : Type u} {next : σ → ι → Except ε σ}
    (takes : ∀ {s input s'}, next s input = .ok s' → step s input s')
    {inputs : List ι} {s s' : σ} (initial : init s) (run : inputs.foldlM next s = .ok s') :
    Reached init step inputs s' := by
  have general : ∀ (rest done : List ι) (s : σ), Reached init step done s →
      rest.foldlM next s = .ok s' → Reached init step (done ++ rest) s' := by
    intro rest
    induction rest with
    | nil =>
        intro done s reached run
        simp only [List.foldlM_nil, pure, Except.pure, Except.ok.injEq] at run
        rw [List.append_nil, ← run]
        exact reached
    | cons input rest ih =>
        intro done s reached run
        rw [List.foldlM_cons] at run
        cases taken : next s input with
        | error failure => simp [taken, bind, Except.bind] at run
        | ok middle =>
            simp only [taken, bind, Except.bind] at run
            have longer := ih (done ++ [input]) middle (reached.step (takes taken)) run
            simpa using longer
  exact general inputs [] s (.start initial) run

section Completions

variable {α : Type*} {calls log : List α}

theorem mem_of_isPrefix (distinct : calls.Nodup) (isPrefix : log.IsPrefix calls) {first second : α}
    (ordered : [first, second].Sublist calls) (mem : second ∈ log) : first ∈ log := by
  rcases isPrefix with ⟨rest, rfl⟩
  rcases List.sublist_append_iff.mp ordered with ⟨left, right, split, inLog, inRest⟩
  have apart := (List.nodup_append.mp distinct).2.2
  rcases left with _ | ⟨head, left⟩
  · rw [List.nil_append] at split
    subst split
    exact absurd rfl (apart second mem second (inRest.subset (by simp)))
  · rw [List.cons_append, List.cons.injEq] at split
    rw [split.1]
    exact inLog.subset List.mem_cons_self

theorem concat_isPrefix (distinct : calls.Nodup) (isPrefix : log.IsPrefix calls) {item : α}
    (mem : item ∈ calls) (fresh : item ∉ log)
    (earlier : ∀ first, [first, item].Sublist calls → first ∈ log) :
    (log ++ [item]).IsPrefix calls := by
  rcases isPrefix with ⟨rest, rfl⟩
  have inRest : item ∈ rest := (List.mem_append.mp mem).resolve_left fresh
  rcases rest with _ | ⟨head, rest⟩
  · exact absurd inRest List.not_mem_nil
  · rcases List.mem_cons.mp inRest with rfl | later
    · exact ⟨rest, by simp⟩
    · have ordered : [head, item].Sublist (log ++ head :: rest) :=
        ((List.singleton_sublist.mpr later).cons_cons head).trans (List.sublist_append_right _ _)
      have apart := (List.nodup_append.mp distinct).2.2
      exact absurd rfl (apart head (earlier head ordered) head List.mem_cons_self)

/-- A log to which calls are added when they are done, one at a time, is an initial part of a list
of calls exactly when no call is ever done before an earlier one. -/
theorem Reached.log_isPrefix_iff {log : σ → List α} {done : α → List ι → Prop}
    (distinct : calls.Nodup) (start : ∀ {s}, init s → log s = [])
    (logged : ∀ {inputs s}, Reached init step inputs s →
      (log s).Nodup ∧ ∀ item, item ∈ log s ↔ item ∈ calls ∧ done item inputs)
    (grows : ∀ {inputs s input s'}, Reached init step inputs s → step s input s' →
      log s' = log s ∨ ∃ item, log s' = log s ++ [item])
    {inputs : List ι} {s : σ} (reached : Reached init step inputs s) :
    (log s).IsPrefix calls ↔ ∀ before, before.IsPrefix inputs → ∀ first second,
      [first, second].Sublist calls → done second before → done first before := by
  have closed : ∀ {inputs s}, Reached init step inputs s → (log s).IsPrefix calls →
      ∀ first second, [first, second].Sublist calls → done second inputs → done first inputs := by
    intro inputs s reached isPrefix first second ordered isDone
    rcases logged reached with ⟨_, log_iff⟩
    have mem := (log_iff second).mpr ⟨ordered.subset (by simp), isDone⟩
    exact ((log_iff first).mp (mem_of_isPrefix distinct isPrefix ordered mem)).2
  induction reached with
  | @start s initial =>
      have isPrefix : (log s).IsPrefix calls := (start initial).symm ▸ List.nil_prefix
      refine ⟨fun _ before earlier => ?_, fun _ => isPrefix⟩
      rw [List.prefix_nil.mp earlier]
      exact closed (.start initial) isPrefix
  | @step inputs s s' input reached taken ih =>
      constructor
      · intro isPrefix before earlier
        rcases List.prefix_concat_iff.mp earlier with rfl | earlier
        · exact closed (reached.step taken) isPrefix
        · have shorter : (log s).IsPrefix calls := by
            rcases grows reached taken with same | ⟨item, same⟩
            · exact same ▸ isPrefix
            · exact (same ▸ List.prefix_append _ _ : (log s).IsPrefix (log s')).trans isPrefix
          exact ih.mp shorter before earlier
      · intro ordered
        have isPrefix := ih.mpr fun before earlier =>
          ordered before (earlier.trans (List.prefix_append _ _))
        rcases grows reached taken with same | ⟨item, same⟩
        · exact same ▸ isPrefix
        · rcases logged (reached.step taken) with ⟨nodup, log_iff⟩
          rw [same] at nodup log_iff ⊢
          have isCall := (log_iff item).mp (by simp)
          have fresh : item ∉ log s := by
            intro mem
            exact (List.nodup_append.mp nodup).2.2 item mem item (by simp) rfl
          refine concat_isPrefix distinct isPrefix isCall.1 fresh fun first sooner => ?_
          have isDone := ordered _ List.prefix_rfl first item sooner isCall.2
          have mem := (log_iff first).mpr ⟨sooner.subset (by simp), isDone⟩
          rcases List.mem_append.mp mem with old | new
          · exact old
          · rw [List.mem_singleton.mp new] at sooner
            exact absurd (sooner.nodup distinct) (by simp)

end Completions

end Runs
