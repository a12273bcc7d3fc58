import Mathlib.Data.List.Basic

/-!
# Computations that may fail

Fallible code is embedded in `Except`. This file has the inversion lemmas for
its `bind` and the induction principles for loops written as `List.foldlM`:
a successful fold preserves what every successful step preserves, and it
relates the processed prefix to the state when every step extends the relation.
-/

namespace Outcome

universe u v

variable {ε : Type u} {α β σ : Type v}

@[simp]
theorem bind_eq_ok {x : Except ε α} {f : α → Except ε β} {b : β} :
    (x >>= f) = .ok b ↔ ∃ a, x = .ok a ∧ f a = .ok b := by
  cases x with
  | error e => simp [bind, Except.bind]
  | ok a => simp [bind, Except.bind]

theorem ok_bind (a : α) (f : α → Except ε β) : ((.ok a : Except ε α) >>= f) = f a :=
  rfl

@[simp]
theorem map_eq_ok {x : Except ε α} {f : α → β} {b : β} :
    f <$> x = .ok b ↔ ∃ a, x = .ok a ∧ f a = b := by
  cases x <;> simp

@[simp]
theorem pure_eq_ok {a b : α} : (pure a : Except ε α) = .ok b ↔ a = b := by
  simp [pure, Except.pure]

@[simp]
theorem throw_ne_ok {e : ε} {b : α} : (throw e : Except ε α) = .ok b ↔ False := by
  simp [throw, throwThe, MonadExceptOf.throw]

/-- The guard of a failing assertion. -/
def assert (condition : Prop) [Decidable condition] (failure : ε) : Except ε PUnit :=
  if condition then .ok ⟨⟩ else .error failure

@[simp]
theorem assert_eq_ok {condition : Prop} [Decidable condition] {failure : ε} {result : PUnit} :
    assert condition failure = .ok result ↔ condition := by
  by_cases holds : condition
  · simp [assert, holds]
  · simp [assert, holds]

/-- `unwrap`: the value of an option, or the failure. -/
def unwrap (value : Option α) (failure : ε) : Except ε α :=
  match value with
  | some a => .ok a
  | none => .error failure

@[simp]
theorem unwrap_eq_ok {value : Option α} {failure : ε} {a : α} :
    unwrap value failure = .ok a ↔ value = some a := by
  cases value <;> simp [unwrap]

@[simp]
theorem bind_eq_error {x : Except ε α} {f : α → Except ε β} {failure : ε} :
    (x >>= f) = .error failure ↔ x = .error failure ∨ ∃ a, x = .ok a ∧ f a = .error failure := by
  cases x with
  | error e => simp [bind, Except.bind]
  | ok a => simp [bind, Except.bind]

@[simp]
theorem map_eq_error {x : Except ε α} {f : α → β} {failure : ε} :
    f <$> x = .error failure ↔ x = .error failure := by
  cases x <;> simp

@[simp]
theorem pure_eq_error {a : α} {failure : ε} : (pure a : Except ε α) = .error failure ↔ False := by
  simp [pure, Except.pure]

@[simp]
theorem assert_eq_error {condition : Prop} [Decidable condition] {failure failure' : ε} :
    assert condition failure = .error failure' ↔ ¬condition ∧ failure = failure' := by
  by_cases holds : condition
  · simp [assert, holds]
  · simp [assert, holds]

@[simp]
theorem unwrap_eq_error {value : Option α} {failure failure' : ε} :
    unwrap value failure = .error failure' ↔ value = none ∧ failure = failure' := by
  cases value <;> simp [unwrap]

/-- A fold fails only in one of its steps. -/
theorem foldlM_ne_error {f : σ → α → Except ε σ} {failure : ε} {items : List α}
    (step : ∀ s, ∀ a ∈ items, f s a ≠ .error failure) (s : σ) :
    items.foldlM f s ≠ .error failure := by
  induction items generalizing s with
  | nil => simp
  | cons a items ih =>
      rw [List.foldlM_cons, Ne, bind_eq_error, not_or]
      refine ⟨step s a List.mem_cons_self, ?_⟩
      rintro ⟨middle, _, failed⟩
      exact ih (fun s b mem => step s b (List.mem_cons_of_mem a mem)) middle failed

/-- A traversal fails only at one of its items. -/
theorem mapM_ne_error {f : α → Except ε β} {failure : ε} {items : List α}
    (each : ∀ a ∈ items, f a ≠ .error failure) : items.mapM f ≠ .error failure := by
  induction items with
  | nil => simp
  | cons a items ih =>
      rw [List.mapM_cons]
      simp only [Ne, bind_eq_error, pure_eq_error, and_false, exists_false, or_false, not_or]
      refine ⟨each a List.mem_cons_self, ?_⟩
      rintro ⟨b, _, failed⟩
      exact ih (fun a mem => each a (List.mem_cons_of_mem _ mem)) failed

/-- A traversal that unwraps every item succeeds when all are there. -/
theorem mapM_unwrap_eq_ok {f : α → Option β} {failure : ε} {items : List α} {results : List β}
    (run : items.mapM (fun a => unwrap (f a) failure) = .ok results) :
    items.map f = results.map some := by
  induction items generalizing results with
  | nil =>
      simp only [List.mapM_nil, pure_eq_ok] at run
      exact run ▸ rfl
  | cons a items ih =>
      simp only [List.mapM_cons, bind_eq_ok, unwrap_eq_ok, pure_eq_ok] at run
      rcases run with ⟨b, first, rest, later, rfl⟩
      rw [List.map_cons, List.map_cons, first, ih later]

/-- A traversal relates every item to its result. -/
theorem mapM_forall₂ {f : α → Except ε β} {R : α → β → Prop} {items : List α} {results : List β}
    (each : ∀ a ∈ items, ∀ b, f a = .ok b → R a b) (run : items.mapM f = .ok results) :
    List.Forall₂ R items results := by
  induction items generalizing results with
  | nil =>
      simp only [List.mapM_nil, pure_eq_ok] at run
      exact run ▸ .nil
  | cons a items ih =>
      simp only [List.mapM_cons, bind_eq_ok, pure_eq_ok] at run
      rcases run with ⟨b, first, rest, later, rfl⟩
      exact .cons (each a List.mem_cons_self b first)
        (ih (fun a mem => each a (List.mem_cons_of_mem _ mem)) later)

/-- A traversal succeeds when it does at each item. -/
theorem mapM_total {f : α → Except ε β} {items : List α} (each : ∀ a ∈ items, ∃ b, f a = .ok b) :
    ∃ results, items.mapM f = .ok results := by
  induction items with
  | nil => exact ⟨[], rfl⟩
  | cons a items ih =>
      rcases each a List.mem_cons_self with ⟨b, first⟩
      rcases ih (fun a mem => each a (List.mem_cons_of_mem _ mem)) with ⟨rest, later⟩
      refine ⟨b :: rest, ?_⟩
      simp only [List.mapM_cons, bind_eq_ok, pure_eq_ok]
      exact ⟨b, first, rest, later, rfl⟩

/-- A reading of the result witnesses success. -/
theorem exists_ok_of_reading {x : Except ε α} {reading : α → β} {b : β}
    (read : x.toOption.map reading = some b) : ∃ a, x = .ok a ∧ reading a = b := by
  cases x with
  | error e => simp [Except.toOption] at read
  | ok a => exact ⟨a, rfl, by simpa [Except.toOption] using read⟩

/-- A successful fold keeps every property that its successful steps keep. -/
theorem foldlM_invariant {f : σ → α → Except ε σ} (P : σ → Prop) {items : List α}
    (step : ∀ {s a s'}, a ∈ items → P s → f s a = .ok s' → P s')
    {s s' : σ} (start : P s) (run : items.foldlM f s = .ok s') : P s' := by
  induction items generalizing s with
  | nil =>
      simp only [List.foldlM_nil, pure_eq_ok] at run
      exact run ▸ start
  | cons a items ih =>
      simp only [List.foldlM_cons, bind_eq_ok] at run
      rcases run with ⟨middle, first, rest⟩
      exact ih (fun mem => step (List.mem_cons_of_mem a mem))
        (step List.mem_cons_self start first) rest

/-- A successful fold extends a relation between the processed prefix and the state. -/
theorem foldlM_prefix {f : σ → α → Except ε σ} (P : List α → σ → Prop) {items : List α}
    (step : ∀ {done a rest s s'}, P done s → f s a = .ok s' → done ++ a :: rest = items →
      P (done ++ [a]) s')
    {s s' : σ} (start : P [] s) (run : items.foldlM f s = .ok s') : P items s' := by
  have general : ∀ (rest done : List α) (s s' : σ), done ++ rest = items → P done s →
      rest.foldlM f s = .ok s' → P items s' := by
    intro rest
    induction rest with
    | nil =>
        intro done s s' whole holds run
        simp only [List.foldlM_nil, pure_eq_ok] at run
        simp only [List.append_nil] at whole
        exact run ▸ whole ▸ holds
    | cons a rest ih =>
        intro done s s' whole holds run
        simp only [List.foldlM_cons, bind_eq_ok] at run
        rcases run with ⟨middle, first, later⟩
        refine ih (done ++ [a]) middle s' (by simpa using whole) ?_ later
        exact step holds first whole
  exact general items [] s s' rfl start run

/-- A fold succeeds when each of its steps does, and extends what each step extends. -/
theorem foldlM_total {f : σ → α → Except ε σ} (P : List α → σ → Prop) {items : List α}
    (step : ∀ {done a rest s}, P done s → done ++ a :: rest = items →
      ∃ s', f s a = .ok s' ∧ P (done ++ [a]) s')
    {s : σ} (start : P [] s) : ∃ s', items.foldlM f s = .ok s' ∧ P items s' := by
  have general : ∀ (rest done : List α) (s : σ), done ++ rest = items → P done s →
      ∃ s', rest.foldlM f s = .ok s' ∧ P items s' := by
    intro rest
    induction rest with
    | nil =>
        intro done s whole holds
        rw [List.append_nil] at whole
        exact ⟨s, rfl, whole ▸ holds⟩
    | cons a rest ih =>
        intro done s whole holds
        rcases step holds whole with ⟨middle, first, holds'⟩
        rcases ih (done ++ [a]) middle (by simpa using whole) holds' with ⟨s', later, final⟩
        refine ⟨s', ?_, final⟩
        rw [List.foldlM_cons, bind_eq_ok]
        exact ⟨middle, first, later⟩
  exact general items [] s rfl start

end Outcome
