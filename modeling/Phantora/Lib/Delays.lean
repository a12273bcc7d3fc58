import Mathlib.Algebra.Order.Group.Defs
import Mathlib.Algebra.Order.Monoid.Unbundled.WithTop
import Mathlib.Order.Bounds.Basic

/-!
# Delays pushed through a graph

Tasks follow each other, and some of them have been scheduled. When a scheduled
task is demanded to start no earlier than a time, it moves as a whole, and what
follows it is demanded to start no earlier than its new end. In whatever order
the demands are handled, and however often a task is reached, each task is left
with the greatest of the times demanded of it. What is read off the times by a
function that need not be monotone is left at the greatest value of a time that
has been handled.
-/

namespace Delays

universe u v

/-- Tasks with what follows them and the spans of those that have been scheduled. -/
structure Tasks (ν : Type u) (τ : Type v) where
  followers : ν → List ν
  span : ν → Option (τ × τ)

section Floor

variable {τ : Type v} [LinearOrder τ]

/-- A time raised to a floor. -/
def lift (floor : WithBot τ) (time : τ) : τ :=
  (max (time : WithBot τ) floor).unbotD time

theorem coe_lift (floor : WithBot τ) (time : τ) :
    ((lift floor time : τ) : WithBot τ) = max (time : WithBot τ) floor := by
  cases floor with
  | bot => simp [lift]
  | coe bound =>
      rw [lift, ← WithBot.coe_max]
      rfl

@[simp]
theorem lift_bot (time : τ) : lift ⊥ time = time := by
  simp [lift]

@[simp]
theorem lift_coe (bound time : τ) : lift (bound : WithBot τ) time = max time bound := by
  rw [← WithBot.coe_inj, coe_lift, WithBot.coe_max]

theorem le_lift (floor : WithBot τ) (time : τ) : time ≤ lift floor time := by
  rw [← WithBot.coe_le_coe, coe_lift]
  exact le_max_left _ _

theorem le_lift_of_le {floor : WithBot τ} {bound : τ} (le : (bound : WithBot τ) ≤ floor)
    (time : τ) : bound ≤ lift floor time := by
  rw [← WithBot.coe_le_coe, coe_lift]
  exact le.trans (le_max_right _ _)

theorem le_lift_iff {floor : WithBot τ} {bound time : τ} :
    bound ≤ lift floor time ↔ bound ≤ time ∨ (bound : WithBot τ) ≤ floor := by
  rw [← WithBot.coe_le_coe, coe_lift, le_max_iff, WithBot.coe_le_coe]

theorem lift_lt_iff {floor : WithBot τ} {bound time : τ} :
    lift floor time < bound ↔ time < bound ∧ floor < bound := by
  rw [← WithBot.coe_lt_coe, coe_lift, max_lt_iff, WithBot.coe_lt_coe]

/-- Raising twice. -/
theorem lift_max (floor : WithBot τ) (bound time : τ) :
    lift (max floor bound) time = max (lift floor time) bound := by
  rw [← WithBot.coe_inj, WithBot.coe_max, coe_lift, coe_lift, max_assoc]

variable {ν : Type u} [DecidableEq ν]

/-- One more time is demanded of a task. -/
def raise (floors : ν → WithBot τ) (e : ν) (time : τ) : ν → WithBot τ :=
  Function.update floors e (max (floors e) time)

@[simp]
theorem raise_self (floors : ν → WithBot τ) (e : ν) (time : τ) :
    raise floors e time e = max (floors e) time := by
  simp [raise]

theorem raise_of_ne {floors : ν → WithBot τ} {e other : ν} {time : τ} (differs : other ≠ e) :
    raise floors e time other = floors other := by
  simp [raise, differs]

theorem le_raise (floors : ν → WithBot τ) (e : ν) (time : τ) (other : ν) :
    floors other ≤ raise floors e time other := by
  by_cases same : other = e
  · subst same
    rw [raise_self]
    exact le_max_left _ _
  · rw [raise_of_ne same]

/-- What is demanded of a task after one more demand was demanded before or is the new time. -/
theorem eq_of_raise {floors : ν → WithBot τ} {e other : ν} {time bound : τ}
    (known : raise floors e time other = bound) :
    floors other = bound ∨ (other = e ∧ bound = time) := by
  by_cases same : other = e
  · subst same
    rw [raise_self] at known
    rcases max_choice (floors other) (time : WithBot τ) with first | second
    · exact .inl (first ▸ known)
    · exact .inr ⟨rfl, (WithBot.coe_inj.mp (second ▸ known)).symm⟩
  · rw [raise_of_ne same] at known
    exact .inl known

end Floor

variable {ν : Type u} {τ : Type v} [AddCommGroup τ] [LinearOrder τ] {tasks : Tasks ν τ}

/-- The end of a task that moves when it is demanded to start no earlier than a time. -/
def Tasks.onward (tasks : Tasks ν τ) (e : ν) (time : τ) : Option τ :=
  match tasks.span e with
  | some (startTime, endTime) =>
      if startTime < time then some (endTime + (time - startTime)) else none
  | none => none

theorem Tasks.onward_eq_some {e : ν} {time newEnd : τ} :
    tasks.onward e time = some newEnd ↔ ∃ startTime endTime,
      tasks.span e = some (startTime, endTime) ∧ startTime < time ∧
        newEnd = endTime + (time - startTime) := by
  unfold onward
  cases tasks.span e with
  | none => simp
  | some span =>
      by_cases early : span.1 < time
      · simp [early, eq_comm, Prod.ext_iff]
      · simp [early, Prod.ext_iff]

/-- The times demanded of the tasks when the first demands are given. -/
inductive Demanded (tasks : Tasks ν τ) (first : List (ν × τ)) : ν → τ → Prop where
  | first {e : ν} {time : τ} : (e, time) ∈ first → Demanded tasks first e time
  | follow {d e : ν} {time newEnd : τ} : Demanded tasks first d time →
      tasks.onward d time = some newEnd → e ∈ tasks.followers d →
        Demanded tasks first e newEnd

/-- The same is demanded when the same is demanded first and tasks that are reached move alike. -/
theorem Demanded.congr {tasks' : Tasks ν τ} {first first' : List (ν × τ)}
    (followers : tasks'.followers = tasks.followers) (sub : first ⊆ first')
    (same : ∀ d time, Demanded tasks first d time → tasks'.onward d time = tasks.onward d time)
    {e : ν} {time : τ} (demanded : Demanded tasks first e time) :
    Demanded tasks' first' e time := by
  induction demanded with
  | first mem => exact .first (sub mem)
  | @follow d e time newEnd before moves follows ih =>
      exact ih.follow ((same d time before).trans moves) (followers ▸ follows)

section Settles

universe w

variable [DecidableEq ν] {σ : Type w} [LinearOrder σ] {image : τ → σ}

/-- Demands are handled one after the other, those that arise from one before those behind it;
each raises the floor of its task, and the image of its time a second floor. -/
inductive Settles (tasks : Tasks ν τ) (image : τ → σ) : (ν → WithBot τ) → (ν → WithBot σ) →
    List (ν × τ) → (ν → WithBot τ) → (ν → WithBot σ) → Prop where
  | done (floors : ν → WithBot τ) (images : ν → WithBot σ) :
      Settles tasks image floors images [] floors images
  | stay {floors floors' : ν → WithBot τ} {images images' : ν → WithBot σ} {e : ν} {time : τ}
      {work : List (ν × τ)} :
      (∀ startTime endTime, tasks.span e = some (startTime, endTime) →
        time ≤ lift (floors e) startTime) →
      Settles tasks image (raise floors e time) (raise images e (image time)) work
        floors' images' →
        Settles tasks image floors images ((e, time) :: work) floors' images'
  | move {floors floors' : ν → WithBot τ} {images images' : ν → WithBot σ} {e : ν}
      {time startTime endTime : τ} {work : List (ν × τ)} {items : List ν} :
      tasks.span e = some (startTime, endTime) → lift (floors e) startTime < time →
      items.Perm (tasks.followers e) →
      Settles tasks image (raise floors e time) (raise images e (image time))
        (items.map (·, endTime + (time - startTime)) ++ work) floors' images' →
        Settles tasks image floors images ((e, time) :: work) floors' images'

/-- The demands that follow from the floors are met or still to be handled. -/
def Closed (tasks : Tasks ν τ) (floors : ν → WithBot τ) (work : List (ν × τ)) : Prop :=
  ∀ (d e : ν) (time newEnd : τ), floors d = time → tasks.onward d time = some newEnd →
    e ∈ tasks.followers d → newEnd ≤ floors e ∨ ∃ later, (e, later) ∈ work ∧ newEnd ≤ later

namespace Settles

variable {floors floors' : ν → WithBot τ} {images images' : ν → WithBot σ}
  {work : List (ν × τ)}

/-- Floors are never lowered. -/
theorem mono (settles : Settles tasks image floors images work floors' images') (e : ν) :
    floors e ≤ floors' e := by
  induction settles with
  | done => exact le_refl _
  | stay _ _ ih => exact (le_raise _ _ _ e).trans ih
  | move _ _ _ _ ih => exact (le_raise _ _ _ e).trans ih

/-- What is to be handled is met in the end. -/
theorem met (settles : Settles tasks image floors images work floors' images') {e : ν} {time : τ}
    (mem : (e, time) ∈ work) : time ≤ floors' e := by
  have now : ∀ {floors floors' : ν → WithBot τ} {images images' : ν → WithBot σ}
      {work : List (ν × τ)} {e : ν} {time : τ},
      Settles tasks image (raise floors e time) images work floors' images' →
        time ≤ floors' e := by
    intro floors floors' images images' work e time rest
    refine le_trans ?_ (rest.mono e)
    rw [raise_self]
    exact le_max_right _ _
  induction settles with
  | done => cases mem
  | stay _ rest ih =>
      rcases List.mem_cons.mp mem with here | there
      · cases here
        exact now rest
      · exact ih there
  | move _ _ _ rest ih =>
      rcases List.mem_cons.mp mem with here | there
      · cases here
        exact now rest
      · exact ih (List.mem_append_right _ there)

/-- Nothing else is demanded than what follows from the first demands, and each second floor is
the image of such a time. -/
theorem demanded {first : List (ν × τ)}
    (settles : Settles tasks image floors images work floors' images')
    (before : ∀ e time, floors e = (time : τ) → Demanded tasks first e time)
    (imaged : ∀ e bound, images e = (bound : σ) →
      ∃ time, Demanded tasks first e time ∧ bound = image time)
    (demands : ∀ e time, (e, time) ∈ work → Demanded tasks first e time) :
    (∀ e time, floors' e = (time : τ) → Demanded tasks first e time) ∧
      ∀ e bound, images' e = (bound : σ) →
        ∃ time, Demanded tasks first e time ∧ bound = image time := by
  have raised : ∀ {floors : ν → WithBot τ} {images : ν → WithBot σ} {e : ν} {time : τ},
      Demanded tasks first e time →
      (∀ e time, floors e = (time : τ) → Demanded tasks first e time) →
      (∀ e bound, images e = (bound : σ) →
        ∃ time, Demanded tasks first e time ∧ bound = image time) →
      (∀ other bound, raise floors e time other = (bound : τ) →
        Demanded tasks first other bound) ∧
      ∀ other bound, raise images e (image time) other = (bound : σ) →
        ∃ time, Demanded tasks first other time ∧ bound = image time := by
    intro floors images e time here before imaged
    refine ⟨fun other bound known => ?_, fun other bound known => ?_⟩
    · rcases eq_of_raise known with old | ⟨rfl, rfl⟩
      · exact before other bound old
      · exact here
    · rcases eq_of_raise known with old | ⟨rfl, rfl⟩
      · exact imaged other bound old
      · exact ⟨time, here, rfl⟩
  induction settles with
  | done => exact ⟨before, imaged⟩
  | stay _ _ ih =>
      rcases raised (demands _ _ List.mem_cons_self) before imaged with ⟨before, imaged⟩
      exact ih before imaged fun e time mem => demands e time (List.mem_cons_of_mem _ mem)
  | @move _ _ _ _ e time startTime endTime _ items span early order _ ih =>
      have here := demands e time List.mem_cons_self
      rcases raised here before imaged with ⟨before, imaged⟩
      refine ih before imaged ?_
      intro other bound mem
      rcases List.mem_append.mp mem with new | old
      · rcases List.mem_map.mp new with ⟨item, itemMem, same⟩
        cases same
        refine here.follow ?_ (order.mem_iff.mp itemMem)
        exact Tasks.onward_eq_some.mpr ⟨startTime, endTime, span, (lift_lt_iff.mp early).1, rfl⟩
      · exact demands other bound (List.mem_cons_of_mem _ old)

/-- The image of a floor is below the second floor. -/
theorem imaged (settles : Settles tasks image floors images work floors' images')
    (before : ∀ e time, floors e = (time : τ) → image time ≤ images e) :
    ∀ e time, floors' e = (time : τ) → image time ≤ images' e := by
  have raised : ∀ {floors : ν → WithBot τ} {images : ν → WithBot σ} (e : ν) (time : τ),
      (∀ e time, floors e = (time : τ) → image time ≤ images e) →
      ∀ other bound, raise floors e time other = (bound : τ) →
        image bound ≤ raise images e (image time) other := by
    intro floors images e time before other bound known
    rcases eq_of_raise known with old | ⟨rfl, rfl⟩
    · exact (before other bound old).trans (le_raise _ _ _ other)
    · rw [raise_self]
      exact le_max_right _ _
  induction settles with
  | done => exact before
  | stay _ _ ih => exact ih (raised _ _ before)
  | move _ _ _ _ ih => exact ih (raised _ _ before)

/-- When all has been handled, all that follows from the floors is met. -/
theorem closed (settles : Settles tasks image floors images work floors' images')
    (before : Closed tasks floors work) : Closed tasks floors' [] := by
  have kept : ∀ {floors : ν → WithBot τ} {work rest : List (ν × τ)} {e other : ν}
      {time newEnd : τ}, (newEnd ≤ floors other ∨
        ∃ later, (other, later) ∈ (e, time) :: work ∧ newEnd ≤ later) → work ⊆ rest →
      newEnd ≤ raise floors e time other ∨ ∃ later, (other, later) ∈ rest ∧ newEnd ≤ later := by
    rintro floors work rest e other time newEnd (met | ⟨later, mem, le⟩) sub
    · exact .inl (met.trans (le_raise _ _ _ other))
    · rcases List.mem_cons.mp mem with here | there
      · cases here
        refine .inl ((WithBot.coe_le_coe.mpr le).trans ?_)
        rw [raise_self]
        exact le_max_right _ _
      · exact .inr ⟨later, sub there, le⟩
  induction settles with
  | done => exact before
  | @stay floors _ _ _ e time work late _ ih =>
      refine ih fun d other bound newEnd known moves follows => ?_
      have old : floors d = bound := by
        rcases eq_of_raise known with old | ⟨rfl, rfl⟩
        · exact old
        · rcases Tasks.onward_eq_some.mp moves with ⟨startTime, endTime, span, early, _⟩
          have met : (bound : WithBot τ) ≤ floors d :=
            (le_lift_iff.mp (late startTime endTime span)).resolve_left (not_le.mpr early)
          rw [raise_self, max_eq_left met] at known
          exact known
      exact kept (before _ _ _ _ old moves follows) (List.Subset.refl _)
  | @move floors _ _ _ e time startTime endTime work items span early order _ ih =>
      refine ih fun d other bound newEnd known moves follows => ?_
      rcases eq_of_raise known with old | ⟨rfl, rfl⟩
      · exact kept (before _ _ _ _ old moves follows) (List.subset_append_right _ _)
      · rcases Tasks.onward_eq_some.mp moves with ⟨_, _, span', _, rfl⟩
        cases span.symm.trans span'
        refine .inr ⟨_, List.mem_append_left _ ?_, le_refl _⟩
        exact List.mem_map_of_mem (order.mem_iff.mpr follows)

/-- The floors are the greatest times demanded, and the second floors images of times demanded. -/
theorem floor_spec [IsOrderedAddMonoid τ] {first : List (ν × τ)}
    (settles : Settles tasks image (fun _ => ⊥) (fun _ => ⊥) first floors images) :
    (∀ e time, Demanded tasks first e time → time ≤ floors e) ∧
      (∀ e time, floors e = (time : τ) → Demanded tasks first e time ∧ image time ≤ images e) ∧
      ∀ e bound, images e = (bound : σ) →
        ∃ time, Demanded tasks first e time ∧ bound = image time := by
  have closed : Closed tasks floors [] :=
    settles.closed fun _ _ _ _ known => absurd known.symm WithBot.coe_ne_bot
  have demanded := settles.demanded (fun _ _ known => absurd known.symm WithBot.coe_ne_bot)
    (fun _ _ known => absurd known.symm WithBot.coe_ne_bot) fun _ _ mem => .first mem
  have imaged := settles.imaged fun _ _ known => absurd known.symm WithBot.coe_ne_bot
  refine ⟨?_, fun e time known => ⟨demanded.1 e time known, imaged e time known⟩, demanded.2⟩
  intro e time demanded
  induction demanded with
  | first mem => exact settles.met mem
  | @follow d e time newEnd _ moves follows ih =>
      rcases Tasks.onward_eq_some.mp moves with ⟨startTime, endTime, span, early, rfl⟩
      rcases WithBot.coe_le_iff.mp ih with ⟨floor, known, le⟩
      have moves : tasks.onward d floor = some (endTime + (floor - startTime)) :=
        Tasks.onward_eq_some.mpr ⟨startTime, endTime, span, early.trans_le le, rfl⟩
      rcases closed _ _ _ _ known moves follows with met | ⟨_, mem, _⟩
      · refine (WithBot.coe_le_coe.mpr ?_).trans met
        exact add_le_add_right (sub_le_sub_right le _) _
      · cases mem

end Settles

end Settles

end Delays
