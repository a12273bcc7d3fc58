import Mathlib.Algebra.BigOperators.Group.Multiset.Basic
import Mathlib.Algebra.Order.BigOperators.Group.Multiset
import Mathlib.Data.Multiset.Count
import Mathlib.Data.Nat.Find
import Mathlib.Logic.Relation

/-!
# Progressive filling

Flows share links of limited capacity. Filling raises the rates of all flows
together; in each round the common increase is the least fair share that a
link can still grant, in whole units, and the flows on the links that grant no
more are frozen. The rates at the end are feasible, every flow has a link that
holds it back, and they do not depend on any order.
-/

namespace WaterFilling

universe u v w

variable {φ : Type u} {ℓ : Type v}

/-- Links with their capacities and the flows that cross them, as often as they do. -/
structure Network (φ : Type u) (ℓ : Type v) where
  capacity : ℓ → ℕ
  crossing : ℓ → Multiset φ

/-- The rates reached so far; a frozen flow keeps its rate. -/
structure State (φ : Type u) where
  rate : φ → ℕ
  frozen : φ → Bool

namespace State

@[ext]
theorem ext {s t : State φ} (rate : s.rate = t.rate) (frozen : s.frozen = t.frozen) : s = t := by
  cases s
  cases t
  congr

end State

variable (net : Network φ ℓ) (s : State φ)

/-- What the flows on a link use of it. -/
def load (link : ℓ) : ℕ :=
  ((net.crossing link).map s.rate).sum

/-- The number of flows on a link that still fill. -/
def active (link : ℓ) : ℕ :=
  (net.crossing link).countP fun f => s.frozen f = false

/-- The increase that a link can grant each of its active flows. -/
def share (link : ℓ) : ℕ :=
  (net.capacity link - load net s link) / active net s link

/-- All active flows are raised by the least share, and frozen where it is the share. -/
structure Round (inc : ℕ) (s s' : State φ) : Prop where
  granted : ∃ link, 0 < active net s link ∧ share net s link = inc
  least : ∀ link, 0 < active net s link → inc ≤ share net s link
  rate : ∀ f, s'.rate f = if s.frozen f then s.rate f else s.rate f + inc
  frozen : ∀ f, s'.frozen f = true ↔ s.frozen f = true ∨
    ∃ link, f ∈ net.crossing link ∧ 0 < active net s link ∧ share net s link = inc

/-- Filling by some increase. -/
def Fills (s s' : State φ) : Prop :=
  ∃ inc, Round net inc s s'

/-- No flow is held back by nothing: where it is frozen, a link is used up to less than one
unit for each of its flows, and no flow on that link is faster. -/
def HeldBack (f : φ) : Prop :=
  ∃ link, f ∈ net.crossing link ∧
    net.capacity link < load net s link + Multiset.card (net.crossing link) ∧
    ∀ g ∈ net.crossing link, s.frozen g = true ∧ s.rate g ≤ s.rate f

/-- The state of a filling that has come to `level`. -/
structure Filled (level : ℕ) : Prop where
  atLevel : ∀ f, s.frozen f = false → s.rate f = level
  below : ∀ link, ∀ f ∈ net.crossing link, s.rate f ≤ level
  feasible : ∀ link, load net s link ≤ net.capacity link
  heldBack : ∀ link, ∀ f ∈ net.crossing link, s.frozen f = true → HeldBack net s f

variable {net s} {s' t t' : State φ} {inc inc' level : ℕ}

theorem active_pos_iff {link : ℓ} :
    0 < active net s link ↔ ∃ f ∈ net.crossing link, s.frozen f = false :=
  Multiset.countP_pos

theorem active_le_card (link : ℓ) :
    active net s link ≤ Multiset.card (net.crossing link) :=
  Multiset.countP_le_card _ _

/-- The state after a round with the increase `inc`. -/
noncomputable def raise (net : Network φ ℓ) (s : State φ) (inc : ℕ) : State φ := by
  classical
  exact ⟨fun f => if s.frozen f then s.rate f else s.rate f + inc, fun f => s.frozen f ||
    decide (∃ link, f ∈ net.crossing link ∧ 0 < active net s link ∧ share net s link = inc)⟩

theorem raise_frozen {f : φ} : (raise net s inc).frozen f = true ↔ s.frozen f = true ∨
    ∃ link, f ∈ net.crossing link ∧ 0 < active net s link ∧ share net s link = inc := by
  simp [raise]

theorem raise_round (granted : ∃ link, 0 < active net s link ∧ share net s link = inc)
    (least : ∀ link, 0 < active net s link → inc ≤ share net s link) :
    Round net inc s (raise net s inc) :=
  ⟨granted, least, fun _ => rfl, fun _ => raise_frozen⟩

/-- A round does one thing only. -/
theorem Round.unique (left : Round net inc s t) (right : Round net inc' s t') : t = t' := by
  have same : inc = inc' := by
    rcases left.granted with ⟨link, isActive, granted⟩
    rcases right.granted with ⟨link', isActive', granted'⟩
    apply Nat.le_antisymm
    · exact granted' ▸ left.least link' isActive'
    · exact granted ▸ right.least link isActive
  subst same
  apply State.ext
  · funext f
    rw [left.rate, right.rate]
  · funext f
    rw [Bool.eq_iff_iff, left.frozen, right.frozen]

/-- What a common increase adds to the load of a link. -/
theorem load_raised {link : ℓ} (rate : ∀ f ∈ net.crossing link,
      s'.rate f = if s.frozen f then s.rate f else s.rate f + inc) :
    load net s' link = load net s link + active net s link * inc := by
  unfold load active
  generalize net.crossing link = flows at rate
  induction flows using Multiset.induction with
  | empty => simp
  | cons f flows ih =>
      rw [Multiset.map_cons, Multiset.sum_cons,
        ih fun g mem => rate g (Multiset.mem_cons_of_mem mem),
        Multiset.map_cons, Multiset.sum_cons, rate f (Multiset.mem_cons_self f flows)]
      cases frozen : s.frozen f with
      | true =>
          rw [Multiset.countP_cons_of_neg _ (by simp [frozen])]
          simp [Nat.add_assoc]
      | false =>
          rw [Multiset.countP_cons_of_pos (p := fun f => s.frozen f = false) _ frozen, Nat.add_mul]
          simp only [Bool.false_eq_true, if_false]
          omega

theorem load_round (round : Round net inc s s') (link : ℓ) :
    load net s' link = load net s link + active net s link * inc :=
  load_raised fun f _ => round.rate f

theorem active_mul_le (round : Round net inc s s') (link : ℓ) :
    active net s link * inc ≤ net.capacity link - load net s link := by
  rcases Nat.eq_zero_or_pos (active net s link) with none | some
  · simp [none]
  · calc active net s link * inc ≤ active net s link * share net s link :=
          Nat.mul_le_mul_left _ (round.least link some)
      _ ≤ net.capacity link - load net s link := Nat.mul_div_le _ _

/-- The links that grant no more are used up to less than one unit for each of their flows. -/
theorem capacity_lt_of_granted (round : Round net inc s s') {link : ℓ}
    (isActive : 0 < active net s link) (granted : share net s link = inc) :
    net.capacity link < load net s' link + Multiset.card (net.crossing link) := by
  have few : active net s link ≤ Multiset.card (net.crossing link) := active_le_card link
  have rest := Nat.lt_mul_div_succ (net.capacity link - load net s link) isActive
  rw [load_round round]
  unfold share at granted
  rw [granted, Nat.mul_add, Nat.mul_one] at rest
  omega

theorem Round.frozen_of_frozen (round : Round net inc s s') {f : φ} (frozen : s.frozen f = true) :
    s'.frozen f = true ∧ s'.rate f = s.rate f := by
  refine ⟨(round.frozen f).mpr (Or.inl frozen), ?_⟩
  rw [round.rate, if_pos frozen]

/-- Every round freezes a flow. -/
theorem Round.freezes (round : Round net inc s s') :
    ∃ link, ∃ f ∈ net.crossing link, s.frozen f = false ∧ s'.frozen f = true := by
  rcases round.granted with ⟨link, isActive, granted⟩
  rcases active_pos_iff.mp isActive with ⟨f, mem, fills⟩
  exact ⟨link, f, mem, fills, (round.frozen f).mpr (Or.inr ⟨link, mem, isActive, granted⟩)⟩

/-- A link whose flows are all frozen is left alone. -/
theorem Round.heldBack (round : Round net inc s s') {f : φ} (frozen : s.frozen f = true)
    (held : HeldBack net s f) : HeldBack net s' f := by
  rcases held with ⟨link, mem, used, slower⟩
  have none : active net s link = 0 := by
    rw [active, Multiset.countP_eq_zero]
    intro g crossing
    simp [(slower g crossing).1]
  refine ⟨link, mem, ?_, ?_⟩
  · rw [load_round round, none, Nat.zero_mul, Nat.add_zero]
    exact used
  · intro g crossing
    rcases round.frozen_of_frozen (slower g crossing).1 with ⟨isFrozen, rate⟩
    rw [rate, (round.frozen_of_frozen frozen).2]
    exact ⟨isFrozen, (slower g crossing).2⟩

theorem Filled.round (filled : Filled net s level) (round : Round net inc s s') :
    Filled net s' (level + inc) := by
  have rates : ∀ f, s'.rate f = if s.frozen f then s.rate f else level + inc := by
    intro f
    rw [round.rate]
    split
    · rfl
    · rename_i fills
      rw [filled.atLevel f (by simpa using fills)]
  have below : ∀ link, ∀ f ∈ net.crossing link, s'.rate f ≤ level + inc := by
    intro link f mem
    have low := filled.below link f mem
    rw [rates]
    split <;> omega
  refine ⟨?_, below, ?_, ?_⟩
  · intro f fills
    have before : ¬s.frozen f = true := by
      intro frozen
      rw [(round.frozen_of_frozen frozen).1] at fills
      cases fills
    rw [rates, if_neg before]
  · intro link
    have fits := filled.feasible link
    have rest := active_mul_le round link
    rw [load_round round]
    omega
  · intro link f mem frozen
    cases before : s.frozen f with
    | true => exact round.heldBack before (filled.heldBack link f mem before)
    | false =>
        rcases (round.frozen f).mp frozen with old | ⟨tight, crosses, isActive, granted⟩
        · rw [before] at old
          cases old
        · refine ⟨tight, crosses, capacity_lt_of_granted round isActive granted, ?_⟩
          intro g crossing
          refine ⟨(round.frozen g).mpr (Or.inr ⟨tight, crossing, isActive, granted⟩), ?_⟩
          rw [rates f, if_neg (by simp [before])]
          exact below tight g crossing

/-- Filling begins with every flow active and at rest. -/
structure Begins (net : Network φ ℓ) (s : State φ) : Prop where
  fills : ∀ link, ∀ f ∈ net.crossing link, s.frozen f = false
  atRest : ∀ f, s.frozen f = false → s.rate f = 0

theorem Begins.load_eq_zero (begins : Begins net s) (link : ℓ) : load net s link = 0 := by
  apply Multiset.sum_eq_zero
  intro rate mem
  rcases Multiset.mem_map.mp mem with ⟨f, crosses, rfl⟩
  exact begins.atRest f (begins.fills link f crosses)

theorem Begins.filled (begins : Begins net s) : Filled net s 0 where
  atLevel := begins.atRest
  below link f mem := by rw [begins.atRest f (begins.fills link f mem)]
  feasible link := by
    rw [begins.load_eq_zero]
    exact Nat.zero_le _
  heldBack link f mem frozen := by
    rw [begins.fills link f mem] at frozen
    cases frozen

theorem Filled.fills (filled : ∃ level, Filled net s level)
    (fills : Relation.ReflTransGen (Fills net) s s') : ∃ level, Filled net s' level := by
  induction fills with
  | refl => exact filled
  | tail _ last ih =>
      rcases ih with ⟨level, filled⟩
      rcases last with ⟨inc, round⟩
      exact ⟨_, filled.round round⟩

/-- A frozen flow keeps its rate to the end. -/
theorem frozen_fills (fills : Relation.ReflTransGen (Fills net) s s') {f : φ}
    (frozen : s.frozen f = true) : s'.frozen f = true ∧ s'.rate f = s.rate f := by
  induction fills with
  | refl => exact ⟨frozen, rfl⟩
  | tail _ last ih =>
      rcases last with ⟨inc, round⟩
      rcases round.frozen_of_frozen ih.1 with ⟨isFrozen, rate⟩
      exact ⟨isFrozen, rate.trans ih.2⟩

/-- A link holds back a flow: it is used up to less than one unit for each flow that is as fast
as this one, and no flow on it is faster. -/
structure Saturates (net : Network φ ℓ) (s : State φ) (link : ℓ) (f : φ) : Prop where
  crosses : f ∈ net.crossing link
  used : net.capacity link <
    load net s link + (net.crossing link).countP fun g => s.rate g = s.rate f
  slower : ∀ g ∈ net.crossing link, s.rate g ≤ s.rate f

/-- Nothing is filled yet, or the links that still fill have a unit left for each flow that has
come to `level`, stopped there or not. -/
def Roomy (net : Network φ ℓ) (s : State φ) (level : ℕ) : Prop :=
  Begins net s ∨ ∀ link, 0 < active net s link →
    load net s link + ((net.crossing link).countP fun f => s.rate f = level) ≤ net.capacity link

/-- An increase below the share of a link leaves a unit for each flow at the new level. -/
theorem Roomy.room (roomy : Roomy net s level) (filled : Filled net s level) {link : ℓ}
    (isActive : 0 < active net s link) (more : inc < share net s link)
    (rate : ∀ f ∈ net.crossing link,
      s'.rate f = if s.frozen f then s.rate f else s.rate f + inc) :
    load net s' link + ((net.crossing link).countP fun f => s'.rate f = level + inc) ≤
      net.capacity link := by
  have fits := filled.feasible link
  have units : active net s link * (inc + 1) ≤ net.capacity link - load net s link :=
    (Nat.mul_le_mul_left _ more).trans (Nat.mul_div_le _ _)
  rw [Nat.mul_add, Nat.mul_one] at units
  have few : (∀ f ∈ net.crossing link, s.frozen f = true → s.rate f ≠ level + inc) →
      (net.crossing link).countP (fun f => s'.rate f = level + inc) ≤ active net s link := by
    intro slow
    rw [active, Multiset.countP_eq_card_filter, Multiset.countP_eq_card_filter]
    apply Multiset.card_le_card
    rw [Multiset.le_filter]
    refine ⟨Multiset.filter_le _ _, fun f mem => ?_⟩
    rcases Multiset.mem_filter.mp mem with ⟨crosses, fast⟩
    cases frozen : s.frozen f with
    | false => rfl
    | true =>
        rw [rate f crosses, if_pos frozen] at fast
        exact absurd fast (slow f crosses frozen)
  rw [load_raised rate]
  rcases roomy with begins | roomy
  · have count := few fun f crosses frozen => by
      rw [begins.fills link f crosses] at frozen
      cases frozen
    omega
  · rcases Nat.eq_zero_or_pos inc with rfl | positive
    · have same : (net.crossing link).countP (fun f => s'.rate f = level + 0) =
          (net.crossing link).countP fun f => s.rate f = level := by
        apply Multiset.countP_congr rfl
        intro f crosses
        rw [rate f crosses]
        simp
      rw [same]
      exact roomy link isActive
    · have count := few fun f crosses _ => by
        have low := filled.below link f crosses
        omega
      omega

theorem active_of_round (round : Round net inc s s') {link : ℓ}
    (isActive : 0 < active net s' link) :
    0 < active net s link ∧ inc < share net s link := by
  rcases active_pos_iff.mp isActive with ⟨f, crosses, fills⟩
  have before : s.frozen f = false := by
    rw [← Bool.not_eq_true] at fills ⊢
    exact fun frozen => fills (round.frozen_of_frozen frozen).1
  have wasActive : 0 < active net s link := active_pos_iff.mpr ⟨f, crosses, before⟩
  refine ⟨wasActive, lt_of_le_of_ne (round.least link wasActive) fun granted => ?_⟩
  rw [(round.frozen f).mpr (Or.inr ⟨link, crosses, wasActive, granted.symm⟩)] at fills
  cases fills

theorem Roomy.round (roomy : Roomy net s level) (filled : Filled net s level)
    (round : Round net inc s s') : Roomy net s' (level + inc) := by
  right
  intro link isActive
  rcases active_of_round round isActive with ⟨wasActive, more⟩
  exact roomy.room filled wasActive more fun f _ => round.rate f

/-- Every stopped flow is held back by a link on which all flows have stopped. -/
def Settled (net : Network φ ℓ) (s : State φ) : Prop :=
  ∀ link, ∀ f ∈ net.crossing link, s.frozen f = true → ∃ link',
    (∀ g ∈ net.crossing link', s.frozen g = true) ∧ Saturates net s link' f

theorem Settled.round (settled : Settled net s) (filled : Filled net s level)
    (round : Round net inc s s') : Settled net s' := by
  intro link f mem frozen
  have filled' := filled.round round
  cases before : s.frozen f with
  | true =>
      rcases settled link f mem before with ⟨tight, stopped, crosses, used, slower⟩
      have same : ∀ g ∈ net.crossing tight, s'.rate g = s.rate g :=
        fun g crossing => (round.frozen_of_frozen (stopped g crossing)).2
      have count : (net.crossing tight).countP (fun g => s'.rate g = s'.rate f) =
          (net.crossing tight).countP fun g => s.rate g = s.rate f := by
        apply Multiset.countP_congr rfl
        intro g crossing
        rw [same g crossing, same f crosses]
      refine ⟨tight, fun g crossing => (round.frozen_of_frozen (stopped g crossing)).1, crosses, ?_,
        fun g crossing => ?_⟩
      · rw [count, load, Multiset.map_congr rfl same]
        exact used
      · rw [same g crossing, same f crosses]
        exact slower g crossing
  | false =>
      rcases (round.frozen f).mp frozen with old | ⟨tight, crosses, isActive, granted⟩
      · rw [before] at old
        cases old
      · have rate : s'.rate f = level + inc := by
          rw [round.rate, if_neg (by simp [before]), filled.atLevel f before]
        have rest := Nat.lt_mul_div_succ (net.capacity tight - load net s tight) isActive
        have few : active net s tight ≤
            (net.crossing tight).countP fun g => s'.rate g = s'.rate f := by
          rw [active, Multiset.countP_eq_card_filter, Multiset.countP_eq_card_filter]
          apply Multiset.card_le_card
          rw [Multiset.le_filter]
          refine ⟨Multiset.filter_le _ _, fun g memFilter => ?_⟩
          have fills := (Multiset.mem_filter.mp memFilter).2
          rw [rate, round.rate, if_neg (by simp [fills]), filled.atLevel g fills]
        refine ⟨tight, fun g crossing => (round.frozen g).mpr
          (Or.inr ⟨tight, crossing, isActive, granted⟩), crosses, ?_, fun g crossing => ?_⟩
        · rw [load_round round]
          unfold share at granted
          rw [granted, Nat.mul_add, Nat.mul_one] at rest
          omega
        · rw [rate]
          exact filled'.below tight g crossing

/-- What is known of a filling that has come to `level` from its beginning. -/
structure Leveled (net : Network φ ℓ) (s : State φ) (level : ℕ) : Prop where
  filled : Filled net s level
  roomy : Roomy net s level
  settled : Settled net s

theorem Begins.leveled (begins : Begins net s) : Leveled net s 0 where
  filled := begins.filled
  roomy := Or.inl begins
  settled link f mem frozen := by
    rw [begins.fills link f mem] at frozen
    cases frozen

theorem Leveled.round (leveled : Leveled net s level) (round : Round net inc s s') :
    Leveled net s' (level + inc) :=
  ⟨leveled.filled.round round, leveled.roomy.round leveled.filled round,
    leveled.settled.round leveled.filled round⟩

theorem Leveled.fills (leveled : ∃ level, Leveled net s level)
    (fills : Relation.ReflTransGen (Fills net) s s') : ∃ level, Leveled net s' level := by
  induction fills with
  | refl => exact leveled
  | tail _ last ih =>
      rcases ih with ⟨level, leveled⟩
      rcases last with ⟨inc, round⟩
      exact ⟨_, leveled.round round⟩

/-- A link that still fills leads to a round. -/
theorem exists_round {link : ℓ} (isActive : 0 < active net s link) :
    ∃ inc s', Round net inc s s' := by
  classical
  have some : ∃ inc, ∃ link, 0 < active net s link ∧ share net s link = inc :=
    ⟨_, link, isActive, rfl⟩
  exact ⟨Nat.find some, raise net s _, raise_round (Nat.find_spec some) fun link isActive =>
    Nat.find_min' some ⟨link, isActive, rfl⟩⟩

/-- Every flow that fills gets a link of its own, with the limit of its rate for a capacity. -/
def limited (net : Network φ ℓ) (limit : φ → ℕ) (fills : φ → Bool) : Network φ (ℓ ⊕ φ) where
  capacity := Sum.elim net.capacity limit
  crossing := Sum.elim net.crossing fun f => if fills f then {f} else 0

section Limits

variable {limit : φ → ℕ} {fills : φ → Bool}

theorem mem_crossing_inr {f g : φ} :
    g ∈ (limited net limit fills).crossing (.inr f) ↔ fills f = true ∧ g = f := by
  simp only [limited, Sum.elim_inr]
  split <;> simp_all

@[simp]
theorem load_inl (link : ℓ) : load (limited net limit fills) s (.inl link) = load net s link := rfl

@[simp]
theorem active_inl (link : ℓ) :
    active (limited net limit fills) s (.inl link) = active net s link := rfl

@[simp]
theorem share_inl (link : ℓ) :
    share (limited net limit fills) s (.inl link) = share net s link := rfl

theorem load_inr {f : φ} (isFilled : fills f = true) :
    load (limited net limit fills) s (.inr f) = s.rate f := by
  simp [load, limited, isFilled]

theorem active_inr {f : φ} :
    0 < active (limited net limit fills) s (.inr f) ↔ fills f = true ∧ s.frozen f = false := by
  rw [active_pos_iff]
  simp only [mem_crossing_inr]
  constructor
  · rintro ⟨_, ⟨isFilled, rfl⟩, active⟩
    exact ⟨isFilled, active⟩
  · rintro ⟨isFilled, active⟩
    exact ⟨f, ⟨isFilled, rfl⟩, active⟩

theorem share_inr {f : φ} (isFilled : fills f = true) (active : s.frozen f = false) :
    share (limited net limit fills) s (.inr f) = limit f - s.rate f := by
  have one : WaterFilling.active (limited net limit fills) s (.inr f) = 1 := by
    have all : Multiset.countP (fun g => s.frozen g = false) {f} = Multiset.card {f} :=
      Multiset.countP_eq_card.mpr (by simpa using active)
    simpa [WaterFilling.active, limited, isFilled] using all
  rw [share, one, load_inr isFilled, Nat.div_one]
  rfl

/-- No flow is faster than its limit. -/
theorem Filled.rate_le_limit (filled : Filled (limited net limit fills) s level) {f : φ}
    (isFilled : fills f = true) : s.rate f ≤ limit f := by
  have fits := filled.feasible (.inr f)
  rwa [load_inr isFilled] at fits

end Limits

/-- Every link can grant each of its flows one unit. -/
def Ample (net : Network φ ℓ) : Prop :=
  ∀ link, Multiset.card (net.crossing link) ≤ net.capacity link

/-- No flow is frozen at rest. -/
structure Moving (net : Network φ ℓ) (s : State φ) : Prop where
  frozen : ∀ link, ∀ f ∈ net.crossing link, s.frozen f = true → 0 < s.rate f
  active : Begins net s ∨ ∀ link, ∀ f ∈ net.crossing link, s.frozen f = false → 0 < s.rate f

theorem Begins.moving (begins : Begins net s) : Moving net s where
  frozen link f mem frozen := by
    rw [begins.fills link f mem] at frozen
    cases frozen
  active := Or.inl begins

/-- The first increase is not zero. -/
theorem Begins.inc_pos (begins : Begins net s) (ample : Ample net) (round : Round net inc s s') :
    0 < inc := by
  rcases round.granted with ⟨link, isActive, granted⟩
  rw [← granted, share, begins.load_eq_zero, Nat.sub_zero]
  exact Nat.div_pos ((active_le_card link).trans (ample link)) isActive

theorem Moving.round (moving : Moving net s) (ample : Ample net) (round : Round net inc s s') :
    Moving net s' := by
  have moves : ∀ link, ∀ f ∈ net.crossing link, 0 < s'.rate f := by
    intro link f mem
    rw [round.rate]
    split
    · rename_i frozen
      exact moving.frozen link f mem frozen
    · rename_i fills
      rcases moving.active with begins | positive
      · exact Nat.add_pos_right _ (begins.inc_pos ample round)
      · exact Nat.add_pos_left (positive link f mem (by simpa using fills)) _
  exact ⟨fun link f mem _ => moves link f mem, Or.inr fun link f mem _ => moves link f mem⟩

theorem Moving.fills (moving : Moving net s) (ample : Ample net)
    (fills : Relation.ReflTransGen (Fills net) s s') : Moving net s' := by
  induction fills with
  | refl => exact moving
  | tail _ last ih =>
      rcases last with ⟨inc, round⟩
      exact ih.round ample round

/-- Nothing on any link fills any more. -/
def Done (net : Network φ ℓ) (s : State φ) : Prop :=
  ∀ link, active net s link = 0

theorem Done.stuck (done : Done net s) : ¬Fills net s s' := by
  rintro ⟨inc, round⟩
  rcases round.granted with ⟨link, isActive, _⟩
  rw [done link] at isActive
  exact Nat.lt_irrefl 0 isActive

/-- Two fillings of one network that come to an end come to the same end. -/
theorem done_unique (left : Relation.ReflTransGen (Fills net) s t)
    (right : Relation.ReflTransGen (Fills net) s t') (leftDone : Done net t)
    (rightDone : Done net t') : t = t' := by
  induction left using Relation.ReflTransGen.head_induction_on with
  | refl =>
      rcases right.cases_head with same | ⟨_, first, _⟩
      · exact same
      · exact absurd first leftDone.stuck
  | head first _ ih =>
      rcases right.cases_head with rfl | ⟨_, first', rest⟩
      · exact absurd first rightDone.stuck
      · rcases first with ⟨inc, round⟩
        rcases first' with ⟨inc', round'⟩
        exact ih (round.unique round' ▸ rest)

/-- The rates at the end of a filling, if it comes to an end. -/
noncomputable def endRate (net : Network φ ℓ) (s : State φ) (f : φ) : ℕ := by
  classical
  exact if ends : ∃ t, Relation.ReflTransGen (Fills net) s t ∧ Done net t then ends.choose.rate f
    else s.rate f

theorem endRate_eq (fills : Relation.ReflTransGen (Fills net) s t) (done : Done net t) (f : φ) :
    endRate net s f = t.rate f := by
  have ends : ∃ t, Relation.ReflTransGen (Fills net) s t ∧ Done net t := ⟨t, fills, done⟩
  rw [endRate, dif_pos ends, done_unique ends.choose_spec.1 fills ends.choose_spec.2 done]

/-- The rates at the end fit the links. -/
theorem Begins.endRate_feasible (begins : Begins net s) (link : ℓ) :
    ((net.crossing link).map (endRate net s)).sum ≤ net.capacity link := by
  by_cases ends : ∃ t, Relation.ReflTransGen (Fills net) s t ∧ Done net t
  · rcases ends with ⟨t, fills, done⟩
    rcases Filled.fills ⟨0, begins.filled⟩ fills with ⟨_, filled⟩
    rw [Multiset.map_congr rfl fun f _ => endRate_eq fills done f]
    exact filled.feasible link
  · rw [Multiset.map_congr rfl fun f _ => by rw [endRate, dif_neg ends]]
    exact (begins.load_eq_zero link).trans_le (Nat.zero_le _)

/-- A flow that is frozen at the start keeps its rate. -/
theorem endRate_of_frozen {f : φ} (frozen : s.frozen f = true) : endRate net s f = s.rate f := by
  rw [endRate]
  split
  · rename_i ends
    exact (frozen_fills ends.choose_spec.1 frozen).2
  · rfl

section Renaming

variable {ψ : Type w} {f : φ → ψ} {net' : Network ψ ℓ} {r r' : State ψ}

/-- The second network has the flows of the first one under other names. -/
structure Renames (f : φ → ψ) (net : Network φ ℓ) (net' : Network ψ ℓ) : Prop where
  capacity : net'.capacity = net.capacity
  crossing : ∀ link, net'.crossing link = (net.crossing link).map f
  injective : ∀ {link link' g g'}, g ∈ net.crossing link → g' ∈ net.crossing link' →
    f g = f g' → g = g'

/-- The flows on the links are in the same state under both names. -/
structure Agrees (f : φ → ψ) (net : Network φ ℓ) (s : State φ) (r : State ψ) : Prop where
  rate : ∀ link, ∀ g ∈ net.crossing link, r.rate (f g) = s.rate g
  frozen : ∀ link, ∀ g ∈ net.crossing link, r.frozen (f g) = s.frozen g

namespace Renames

theorem active_eq (renames : Renames f net net') (agrees : Agrees f net s r) (link : ℓ) :
    active net' r link = active net s link := by
  rw [active, active, renames.crossing, Multiset.countP_map, ← Multiset.countP_eq_card_filter]
  exact Multiset.countP_congr rfl fun g mem => by rw [agrees.frozen link g mem]

theorem share_eq (renames : Renames f net net') (agrees : Agrees f net s r) (link : ℓ) :
    share net' r link = share net s link := by
  have loads : load net' r link = load net s link := by
    rw [load, load, renames.crossing, Multiset.map_map]
    exact congrArg Multiset.sum (Multiset.map_congr rfl fun g mem => agrees.rate link g mem)
  rw [share, share, renames.capacity, loads, renames.active_eq agrees]

/-- What a round does, it does under the other names too. -/
theorem round (renames : Renames f net net') (agrees : Agrees f net s r)
    (round : Round net inc s s') : ∃ r', Round net' inc r r' ∧ Agrees f net s' r' := by
  have isRound : Round net' inc r (raise net' r inc) := by
    refine raise_round ?_ ?_
    · rcases round.granted with ⟨link, isActive, granted⟩
      refine ⟨link, ?_, ?_⟩
      · rw [renames.active_eq agrees]
        exact isActive
      · rw [renames.share_eq agrees]
        exact granted
    · intro link isActive
      rw [renames.active_eq agrees] at isActive
      rw [renames.share_eq agrees]
      exact round.least link isActive
  refine ⟨_, isRound, ?_, ?_⟩
  · intro link g mem
    rw [isRound.rate, round.rate, agrees.frozen link g mem, agrees.rate link g mem]
  · intro link g mem
    rw [Bool.eq_iff_iff, isRound.frozen, round.frozen, agrees.frozen link g mem]
    refine or_congr Iff.rfl (exists_congr fun other => ?_)
    rw [renames.active_eq agrees, renames.share_eq agrees, renames.crossing, Multiset.mem_map]
    refine and_congr_left fun _ => ⟨?_, fun crosses => ⟨g, crosses, rfl⟩⟩
    rintro ⟨g', crosses, same⟩
    exact renames.injective crosses mem same ▸ crosses

/-- A filling leads to the same rates under other names. -/
theorem endRate_eq (renames : Renames f net net') (agrees : Agrees f net s r)
    (fills : Relation.ReflTransGen (Fills net) s t) (done : Done net t) {link : ℓ} {g : φ}
    (crosses : g ∈ net.crossing link) : endRate net' r (f g) = t.rate g := by
  have ends : ∃ r', Relation.ReflTransGen (Fills net') r r' ∧ Agrees f net t r' := by
    clear done crosses
    induction fills with
    | refl => exact ⟨r, .refl, agrees⟩
    | tail _ last ih =>
        rcases ih with ⟨middle, fills, agrees⟩
        rcases last with ⟨inc, round⟩
        rcases renames.round agrees round with ⟨r', round', agrees'⟩
        exact ⟨r', fills.tail ⟨inc, round'⟩, agrees'⟩
  rcases ends with ⟨r', fills', agrees'⟩
  have done' : Done net' r' := fun link => (renames.active_eq agrees' link).trans (done link)
  rw [WaterFilling.endRate_eq fills' done', agrees'.rate link g crosses]

end Renames

end Renaming

section Groups

variable (s)

/-- The number of flows of a group that still fill. -/
def members (group : List φ) : ℕ :=
  group.countP fun f => s.frozen f = false

/-- The number of groups with a flow that still fills. -/
def objects (groups : List (List φ)) : ℕ :=
  groups.countP fun group => 0 < members s group

variable {s}

theorem members_pos_iff {group : List φ} :
    0 < members s group ↔ ∃ f ∈ group, s.frozen f = false := by
  simp [members, List.countP_pos_iff]

theorem objects_pos_iff {groups : List (List φ)} :
    0 < objects s groups ↔ ∃ group ∈ groups, 0 < members s group := by
  simp [objects, List.countP_pos_iff]

/-- When every group gets the same share and divides it among its flows, an increase that no flow
finds too large fits. -/
theorem countP_flatten_mul_le {groups : List (List φ)} {share : ℕ}
    (least : ∀ group ∈ groups, 0 < members s group → inc ≤ share / members s group) :
    (groups.flatten.countP fun f => s.frozen f = false) * inc ≤ objects s groups * share := by
  induction groups with
  | nil => simp
  | cons group groups ih =>
      have rest := ih fun other mem => least other (List.mem_cons_of_mem _ mem)
      have split : (((group :: groups).flatten.countP fun f => s.frozen f = false)) =
          members s group + groups.flatten.countP fun f => s.frozen f = false := by
        rw [List.flatten_cons, List.countP_append, members]
      rw [split, Nat.add_mul]
      rcases Nat.eq_zero_or_pos (members s group) with none | some
      · have count : objects s (group :: groups) = objects s groups :=
          List.countP_cons_of_neg (by simp [none])
        rw [count, none, Nat.zero_mul, Nat.zero_add]
        exact rest
      · have count : objects s (group :: groups) = objects s groups + 1 :=
          List.countP_cons_of_pos (by simp [some])
        have first : members s group * inc ≤ share :=
          (Nat.mul_le_mul_left _ (least group List.mem_cons_self some)).trans (Nat.mul_div_le _ _)
        rw [count, Nat.add_mul, Nat.one_mul, Nat.add_comm]
        exact Nat.add_le_add rest first

end Groups

end WaterFilling
