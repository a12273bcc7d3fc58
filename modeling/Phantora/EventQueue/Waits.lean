import Phantora.EventQueue.Flows

/-!
# What events wait for

A pending event and the lists of reverse dependencies agree: an event waits
exactly for those of its dependencies that have not ended.
-/

namespace Phantora

open Outcome

namespace EventQueue

variable {platform : Platform} {agenda agenda' : Agenda} {queue queue' : EventQueue}

/-- The event that the task releases. -/
def Task.released? : Task → Option EventId
  | .release e => some e
  | _ => none

/-- The events that remain to be released. -/
def Agenda.releases (agenda : Agenda) : List EventId :=
  agenda.filterMap Task.released?

/-- An event waits exactly for those of its dependencies that have not ended; it
waits for nothing only when it remains to be released. -/
structure Waits (agenda : Agenda) (queue : EventQueue) : Prop where
  revIssued : ∀ {d e}, e ∈ queue.revDependencies d → e < queue.eventCounter
  issued : ∀ {e p d}, queue.pending e = some p → some d ∈ p.dependencies → d < queue.eventCounter
  unended : ∀ {e p d}, queue.pending e = some p → some d ∈ p.dependencies →
    queue.ended d = none ∧ e ∈ queue.revDependencies d
  waits : ∀ {d e}, e ∈ queue.revDependencies d → queue.ended d = none →
    ∃ p, queue.pending e = some p ∧ some d ∈ p.dependencies
  idle : ∀ {e p}, queue.pending e = some p → (p.dependencies = ∅ ↔ e ∈ agenda.releases)
  released : ∀ {e}, e ∈ agenda.releases → queue.pending e ≠ none
  distinct : agenda.releases.Nodup

namespace Waits

/-- Nothing about waiting changes. -/
theorem keep (waits : Waits agenda queue) (pending : queue'.pending = queue.pending)
    (ended : queue'.ended = queue.ended)
    (revDependencies : queue'.revDependencies = queue.revDependencies)
    (eventCounter : queue'.eventCounter = queue.eventCounter)
    (releases : agenda'.releases = agenda.releases) : Waits agenda' queue' := by
  constructor
  · rw [revDependencies, eventCounter]
    exact waits.revIssued
  · rw [pending, eventCounter]
    exact waits.issued
  · rw [pending, ended, revDependencies]
    exact waits.unended
  · rw [pending, ended, revDependencies]
    exact waits.waits
  · rw [pending, releases]
    exact waits.idle
  · rw [pending, releases]
    exact waits.released
  · rw [releases]
    exact waits.distinct

/-- An event that waits for nothing more is released. -/
theorem release {e : EventId} {p : Pending} {action : Option Action} {time : ℤ}
    (waits : Waits (.release e :: agenda) queue) (known : queue.pending e = some p) :
    Waits (.launch e action time :: agenda)
      { queue with pending := Function.update queue.pending e none } := by
  have empty : p.dependencies = ∅ :=
    (waits.idle known).mpr (by simp [Agenda.releases, Task.released?])
  have distinct : e ∉ agenda.releases ∧ agenda.releases.Nodup := List.nodup_cons.mp waits.distinct
  constructor
  · exact waits.revIssued
  · intro other p' d known'
    exact waits.issued (eq_some_of_update_none known')
  · intro other p' d known'
    exact waits.unended (eq_some_of_update_none known')
  · intro d other rev unended
    rcases waits.waits rev unended with ⟨p', known', mem⟩
    have differs : other ≠ e := by
      rintro rfl
      rw [Option.some.inj (known'.symm.trans known), empty] at mem
      exact absurd mem (Finset.notMem_empty _)
    exact ⟨p', (Function.update_of_ne differs _ _).trans known', mem⟩
  · intro other p' known'
    have differs : other ≠ e := by
      rintro rfl
      simp at known'
    rw [waits.idle (eq_some_of_update_none known')]
    show other ∈ e :: agenda.releases ↔ other ∈ agenda.releases
    simp [differs]
  · intro other mem
    have differs : other ≠ e := by
      rintro rfl
      exact distinct.1 mem
    show Function.update queue.pending e none other ≠ none
    rw [Function.update_of_ne differs]
    exact waits.released (List.mem_cons_of_mem _ mem)
  · exact distinct.2

section Finish

variable {e : EventId} {startTime endTime : ℤ} {pending : EventId → Option Pending}
  {released : List EventId}

/-- The end of an event is struck out wherever it is waited for. -/
theorem dependencies_noted (waits : Waits agenda queue)
    (noted : Noted queue e endTime pending released) (other : EventId) :
    (pending other).map Pending.dependencies =
      (queue.pending other).map fun p => p.dependencies.erase (some e) := by
  rw [noted.pending]
  split
  · rw [Option.map_map]
    exact congrArg (Option.map · _) (funext fun p => p.dependencies_noted e endTime)
  · rename_i notRev
    cases known : queue.pending other with
    | none => rfl
    | some p =>
        have absent : some e ∉ p.dependencies :=
          fun mem => notRev (waits.unended known mem).2
        simp [Finset.erase_eq_of_notMem absent]

theorem finish (waits : Waits (.finish e startTime endTime :: agenda) queue)
    (noted : Noted queue e endTime pending released) :
    Waits (released.map .release ++ agenda)
      { queue.finished e startTime endTime with pending := pending } := by
  have struck := waits.dependencies_noted noted
  have before : ∀ {other p'}, pending other = some p' → ∃ p, queue.pending other = some p ∧
      p'.dependencies = p.dependencies.erase (some e) := by
    intro other p' known
    have equal := struck other
    rw [known, Option.map_some] at equal
    rcases Option.map_eq_some_iff.mp equal.symm with ⟨p, old, same⟩
    exact ⟨p, old, same.symm⟩
  have after : ∀ {other p}, queue.pending other = some p → ∃ p', pending other = some p' ∧
      p'.dependencies = p.dependencies.erase (some e) := by
    intro other p known
    have equal := struck other
    rw [known, Option.map_some] at equal
    exact Option.map_eq_some_iff.mp equal
  have endedEq : ∀ {d}, (queue.finished e startTime endTime).ended d = none ↔
      d ≠ e ∧ queue.ended d = none := by
    intro d
    show Function.update queue.ended e _ d = none ↔ _
    by_cases same : d = e <;> simp [same]
  have releases : Agenda.releases (released.map .release ++ agenda) =
      released ++ agenda.releases := by
    simp [Agenda.releases, List.filterMap_map, Function.comp_def, Task.released?]
  have oldReleases : Agenda.releases (.finish e startTime endTime :: agenda) =
    agenda.releases := rfl
  have apart : ∀ other ∈ released, other ∉ agenda.releases := by
    intro other mem waiting
    rcases (noted.released other).mp mem with ⟨_, p, known, dep, _⟩
    rw [(waits.idle known).mpr waiting] at dep
    exact absurd dep (Finset.notMem_empty _)
  constructor
  · exact waits.revIssued
  · intro other p' d known mem
    rcases before known with ⟨p, old, same⟩
    rw [same] at mem
    exact waits.issued old (Finset.mem_of_mem_erase mem)
  · intro other p' d known mem
    rcases before known with ⟨p, old, same⟩
    rw [same, Finset.mem_erase] at mem
    rcases waits.unended old mem.2 with ⟨unended, rev⟩
    exact ⟨endedEq.mpr ⟨fun equal => mem.1 (congrArg some equal), unended⟩, rev⟩
  · intro d other rev unended
    rcases endedEq.mp unended with ⟨differs, unended⟩
    rcases waits.waits rev unended with ⟨p, old, mem⟩
    rcases after old with ⟨p', known, same⟩
    refine ⟨p', known, ?_⟩
    rw [same, Finset.mem_erase]
    exact ⟨fun equal => differs (Option.some.inj equal), mem⟩
  · intro other p' known
    rcases before known with ⟨p, old, same⟩
    rw [releases, List.mem_append, noted.released, same, ← oldReleases, ← waits.idle old]
    constructor
    · intro empty
      by_cases dep : some e ∈ p.dependencies
      · exact Or.inl ⟨(waits.unended old dep).2, p, old, dep, empty⟩
      · rw [Finset.erase_eq_of_notMem dep] at empty
        exact Or.inr empty
    · rintro (⟨_, p'', old', _, empty⟩ | empty)
      · rw [Option.some.inj (old.symm.trans old')]
        exact empty
      · rw [empty]
        rfl
  · intro other mem
    rw [releases, List.mem_append] at mem
    have old : queue.pending other ≠ none := by
      rcases mem with mem | mem
      · rcases (noted.released other).mp mem with ⟨_, p, known, _⟩
        rw [known]
        exact Option.some_ne_none p
      · exact waits.released mem
    rcases Option.ne_none_iff_exists'.mp old with ⟨p, known⟩
    rcases after known with ⟨p', known', _⟩
    exact Option.ne_none_iff_exists'.mpr ⟨p', known'⟩
  · rw [releases, List.nodup_append]
    refine ⟨noted.nodup, waits.distinct, ?_⟩
    rintro other mem _ waiting rfl
    exact apart other mem waiting

end Finish

/-- A new event, all of whose dependencies have ended. -/
theorem add (waits : Waits [] queue) {dependsOn : List (Option EventId)} {action : Option Action}
    {time arriveTime : ℤ} {rev : EventId → List EventId} {depends : Finset (Option EventId)}
    (registered : Registered queue dependsOn time rev depends arriveTime) (empty : depends = ∅) :
    Waits [.launch queue.eventCounter action arriveTime]
      { queue.issue dependsOn action time with revDependencies := rev } := by
  constructor
  · intro d e mem
    rcases registered.rev.mp mem with old | ⟨rfl, _⟩
    · exact (waits.revIssued old).trans (Nat.lt_succ_self _)
    · exact Nat.lt_succ_self _
  · intro e p d known mem
    exact (waits.issued known mem).trans (Nat.lt_succ_self _)
  · intro e p d known mem
    exact ⟨(waits.unended known mem).1, registered.rev.mpr (Or.inl (waits.unended known mem).2)⟩
  · intro d e mem unended
    rcases registered.rev.mp mem with old | ⟨_, new⟩
    · exact waits.waits old unended
    · have waited : some d ∈ depends := by
        refine (registered.depends _).mpr ⟨new, ?_⟩
        intro d' same
        exact Option.some.inj same ▸ unended
      rw [empty] at waited
      exact absurd waited (Finset.notMem_empty _)
  · exact waits.idle
  · exact waits.released
  · exact waits.distinct

/-- A new event that waits. -/
theorem wait (waits : Waits [] queue) {dependsOn : List (Option EventId)} {action : Option Action}
    {time arriveTime : ℤ} {rev : EventId → List EventId} {depends : Finset (Option EventId)}
    (valid : Call.Valid queue (.addActionOrPoint dependsOn action time))
    (registered : Registered queue dependsOn time rev depends arriveTime) (nonempty : depends ≠ ∅)
    (absent : queue.pending queue.eventCounter = none) :
    Waits [] { queue.issue dependsOn action time with
      revDependencies := rev
      pending := Function.update queue.pending queue.eventCounter
        (some ⟨depends, arriveTime, 0, action⟩) } := by
  have cases : ∀ {e p}, Function.update queue.pending queue.eventCounter
        (some ⟨depends, arriveTime, 0, action⟩) e = some p →
      (e = queue.eventCounter ∧ p.dependencies = depends) ∨ queue.pending e = some p := by
    intro e p known
    by_cases same : e = queue.eventCounter
    · subst e
      rw [Function.update_self, Option.some.injEq] at known
      exact Or.inl ⟨rfl, known ▸ rfl⟩
    · rw [Function.update_of_ne same] at known
      exact Or.inr known
  constructor
  · intro d e mem
    rcases registered.rev.mp mem with old | ⟨rfl, _⟩
    · exact (waits.revIssued old).trans (Nat.lt_succ_self _)
    · exact Nat.lt_succ_self _
  · intro e p d known mem
    rcases cases known with ⟨_, same⟩ | old
    · rw [same, registered.depends] at mem
      exact (valid.1 d mem.1).trans (Nat.lt_succ_self _)
    · exact (waits.issued old mem).trans (Nat.lt_succ_self _)
  · intro e p d known mem
    rcases cases known with ⟨rfl, same⟩ | old
    · rw [same, registered.depends] at mem
      exact ⟨mem.2 d rfl, registered.rev.mpr (Or.inr ⟨rfl, mem.1⟩)⟩
    · exact ⟨(waits.unended old mem).1, registered.rev.mpr (Or.inl (waits.unended old mem).2)⟩
  · intro d e mem unended
    rcases registered.rev.mp mem with old | ⟨rfl, new⟩
    · rcases waits.waits old unended with ⟨p, known, dep⟩
      have differs : e ≠ queue.eventCounter := Nat.ne_of_lt (waits.revIssued old)
      exact ⟨p, (Function.update_of_ne differs _ _).trans known, dep⟩
    · refine ⟨_, Function.update_self _ _ _, (registered.depends _).mpr ⟨new, ?_⟩⟩
      intro d' same
      exact Option.some.inj same ▸ unended
  · intro e p known
    rcases cases known with ⟨rfl, same⟩ | old
    · refine ⟨fun empty => absurd (same.symm.trans empty) nonempty, ?_⟩
      intro mem
      exact absurd absent (waits.released mem)
    · exact waits.idle old
  · intro e mem
    cases mem
  · exact List.nodup_nil

/-- The dependencies of a pending event are amended. -/
theorem amend (waits : Waits [] queue) {e : EventId} {p : Pending}
    (dependencies : Finset (Option EventId)) (rev : EventId → List EventId)
    (known : queue.pending e = some p)
    (revs : ∀ d other, other ∈ rev d ↔ other ∈ queue.revDependencies d ∨
      (some d ∈ dependencies ∧ other = e))
    (kept : ∀ d, some d ∈ p.dependencies → some d ∈ dependencies)
    (unended : ∀ d, some d ∈ dependencies → d < queue.eventCounter ∧ queue.ended d = none)
    (issued : e < queue.eventCounter) :
    Waits (if dependencies = ∅ then [.release e] else []) { queue with
      revDependencies := rev
      pending := Function.update queue.pending e
        (some { p with dependencies := dependencies }) } := by
  have releases : Agenda.releases (if dependencies = ∅ then [.release e] else []) =
      if dependencies = ∅ then [e] else [] := by
    split <;> rfl
  have cases : ∀ {other p'}, Function.update queue.pending e
        (some { p with dependencies := dependencies }) other = some p' →
      (other = e ∧ p'.dependencies = dependencies) ∨
        (other ≠ e ∧ queue.pending other = some p') := by
    intro other p' known'
    by_cases same : other = e
    · subst other
      rw [Function.update_self, Option.some.injEq] at known'
      exact Or.inl ⟨rfl, known' ▸ rfl⟩
    · rw [Function.update_of_ne same] at known'
      exact Or.inr ⟨same, known'⟩
  constructor
  · intro d other mem
    rcases (revs d other).mp mem with old | ⟨_, rfl⟩
    · exact waits.revIssued old
    · exact issued
  · intro other p' d known' mem
    rcases cases known' with ⟨_, same⟩ | ⟨_, old⟩
    · rw [same] at mem
      exact (unended d mem).1
    · exact waits.issued old mem
  · intro other p' d known' mem
    rcases cases known' with ⟨rfl, same⟩ | ⟨_, old⟩
    · rw [same] at mem
      exact ⟨(unended d mem).2, (revs d other).mpr (Or.inr ⟨mem, rfl⟩)⟩
    · exact ⟨(waits.unended old mem).1, (revs d other).mpr (Or.inl (waits.unended old mem).2)⟩
  · intro d other mem isUnended
    show ∃ p', Function.update queue.pending e _ other = some p' ∧ some d ∈ p'.dependencies
    by_cases same : other = e
    · subst other
      refine ⟨_, Function.update_self _ _ _, ?_⟩
      rcases (revs d e).mp mem with old | ⟨dep, _⟩
      · rcases waits.waits old isUnended with ⟨p', known', dep⟩
        rw [Option.some.inj (known'.symm.trans known)] at dep
        exact kept d dep
      · exact dep
    · rw [Function.update_of_ne same]
      rcases (revs d other).mp mem with old | ⟨_, equal⟩
      · exact waits.waits old isUnended
      · exact absurd equal same
  · intro other p' known'
    rw [releases]
    rcases cases known' with ⟨rfl, same⟩ | ⟨differs, old⟩
    · rw [same]
      split <;> simp [*]
    · rw [waits.idle old]
      split <;> simp [Agenda.releases, differs]
  · intro other mem
    rw [releases] at mem
    split at mem
    · rw [List.mem_singleton.mp mem]
      show Function.update queue.pending e _ e ≠ none
      simp
    · cases mem
  · rw [releases]
    split <;> simp

/-- A dependency that has ended is registered. -/
theorem register (waits : Waits [] queue) {e d : EventId}
    (valid : Call.Valid queue (.addDependency e (some d))) (ended : queue.ended d ≠ none) :
    Waits [] (queue.addRevDependency d e) := by
  refine { waits with revIssued := ?_, unended := ?_, waits := ?_ }
  · intro d' e' mem
    rcases mem_addRevDependency.mp mem with old | ⟨_, rfl⟩
    · exact waits.revIssued old
    · exact valid.1
  · intro e' p d' known dep
    exact ⟨(waits.unended known dep).1,
      mem_addRevDependency.mpr (Or.inl (waits.unended known dep).2)⟩
  · intro d' e' mem unended
    rcases mem_addRevDependency.mp mem with old | ⟨rfl, _⟩
    · exact waits.waits old unended
    · exact absurd unended ended

end Waits

/-- A small step keeps what events wait for. -/
theorem waits_small (flows : Flows agenda queue) (waits : Waits agenda queue)
    (small : Small platform (agenda, queue) (agenda', queue')) : Waits agenda' queue' := by
  cases small with
  | note entries counter => exact waits.keep rfl rfl rfl rfl rfl
  | release known => exact waits.release known
  | point counter => exact waits.keep rfl rfl rfl rfl rfl
  | compute counter => exact waits.keep rfl rfl rfl rfl rfl
  | arrive nonneg arrival => exact waits.keep rfl rfl rfl rfl rfl
  | board counter => exact waits.keep rfl rfl rfl rfl rfl
  | landed => exact waits.keep rfl rfl rfl rfl rfl
  | @move _ _ _ _ records waiting stepped =>
      refine waits.keep rfl rfl rfl rfl ?_
      simp [Agenda.releases, List.filterMap_map, Function.comp_def, Task.released?]
  | complete counter token same => exact waits.keep rfl rfl rfl rfl rfl
  | arrived token same boards => exact waits.keep rfl rfl rfl rfl rfl
  | reach queued => exact waits.keep rfl rfl rfl rfl rfl
  | stop queued known => exact waits.keep rfl rfl rfl rfl rfl
  | startComputation counter queued known => exact waits.keep rfl rfl rfl rfl rfl
  | startFlow queued known => exact waits.keep rfl rfl rfl rfl rfl
  | finish noted => exact waits.finish noted
  | add valid registered empty => exact waits.add registered empty
  | wait valid registered nonempty =>
      exact waits.wait valid registered nonempty (flows.issued (le_refl _)).1
  | register valid ended => exact waits.register valid ended
  | @depend _ e d p valid unended known =>
      have amended := waits.amend (insert (some d) p.dependencies)
        (queue.addRevDependency d e).revDependencies known ?_ ?_ ?_ valid.1
      · rwa [if_neg (Finset.insert_ne_empty _ _)] at amended
      · intro d' other
        rw [mem_addRevDependency, Finset.mem_insert, Option.some.injEq]
        constructor
        · rintro (old | ⟨rfl, rfl⟩)
          · exact Or.inl old
          · exact Or.inr ⟨Or.inl rfl, rfl⟩
        · rintro (old | ⟨rfl | mem, rfl⟩)
          · exact Or.inl old
          · exact Or.inr ⟨rfl, rfl⟩
          · exact Or.inl (waits.unended known mem).2
      · intro d' mem
        exact Finset.mem_insert_of_mem mem
      · intro d' mem
        rcases Finset.mem_insert.mp mem with same | mem
        · rw [Option.some.inj same]
          exact ⟨valid.2 d rfl, unended⟩
        · exact ⟨waits.issued known mem, (waits.unended known mem).1⟩
  | @block _ e p known =>
      have amended := waits.amend (insert none p.dependencies) queue.revDependencies known ?_ ?_ ?_
        (flows.lt_of_pending known)
      · rwa [if_neg (Finset.insert_ne_empty _ _)] at amended
      · intro d other
        refine ⟨Or.inl, ?_⟩
        rintro (old | ⟨mem, rfl⟩)
        · exact old
        · exact (waits.unended known (by simpa using mem)).2
      · intro d mem
        exact Finset.mem_insert_of_mem mem
      · intro d mem
        have mem : some d ∈ p.dependencies := by simpa using mem
        exact ⟨waits.issued known mem, (waits.unended known mem).1⟩
  | @unblock _ e p known =>
      refine waits.amend (p.dependencies.erase none) queue.revDependencies known ?_ ?_ ?_
        (flows.lt_of_pending known)
      · intro d other
        refine ⟨Or.inl, ?_⟩
        rintro (old | ⟨mem, rfl⟩)
        · exact old
        · exact (waits.unended known (Finset.mem_of_mem_erase mem)).2
      · intro d mem
        exact Finset.mem_erase.mpr ⟨by simp, mem⟩
      · intro d mem
        have mem := Finset.mem_of_mem_erase mem
        exact ⟨waits.issued known mem, (waits.unended known mem).1⟩

end EventQueue

end Phantora
