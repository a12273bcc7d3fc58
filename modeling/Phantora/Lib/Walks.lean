import Mathlib.Data.List.Basic
import Mathlib.Data.List.Forall2
import Mathlib.Data.List.Nodup

/-!
# Walks along links

Links between places, each known by the relation `joins` that it stands for. A
walk is a list of links, each of which starts where the one before it ends. A
walk that only goes up and then only down passes no link twice.
-/

namespace Walks

universe u v

variable {ν : Type u} {ε : Type v}

/-- A walk from one place to another. -/
inductive Walk (joins : ε → ν → ν → Prop) : ν → List ε → ν → Prop
  | nil (x : ν) : Walk joins x [] x
  | cons {x y z : ν} {link : ε} {path : List ε} (first : joins link x y)
      (rest : Walk joins y path z) : Walk joins x (link :: path) z

namespace Walk

variable {joins joins' : ε → ν → ν → Prop} {x y z : ν} {link : ε} {path path' : List ε}

theorem single (step : joins link x y) : Walk joins x [link] y :=
  .cons step (.nil y)

theorem append (first : Walk joins x path y) (rest : Walk joins y path' z) :
    Walk joins x (path ++ path') z := by
  induction first with
  | nil => exact rest
  | cons step _ ih => exact .cons step (ih rest)

theorem concat (first : Walk joins x path y) (step : joins link y z) :
    Walk joins x (path ++ [link]) z :=
  first.append (single step)

theorem mono (walk : Walk joins x path y)
    (more : ∀ link x y, joins link x y → joins' link x y) : Walk joins' x path y := by
  induction walk with
  | nil x => exact .nil x
  | cons step _ ih => exact .cons (more _ _ _ step) ih

/-- Every link of a walk joins two places. -/
theorem exists_joins (walk : Walk joins x path y) (mem : link ∈ path) : ∃ a b, joins link a b := by
  induction walk with
  | nil => cases mem
  | cons step _ ih =>
      rcases List.mem_cons.mp mem with rfl | later
      · exact ⟨_, _, step⟩
      · exact ih later

end Walk

/-- Each link joins one pair of places. -/
def Functional (joins : ε → ν → ν → Prop) : Prop :=
  ∀ link x y x' y', joins link x y → joins link x' y' → x = x' ∧ y = y'

section Layers

variable {joins : ε → ν → ν → Prop} {depth : ν → ℕ} {x y z : ν} {link : ε} {path up down : List ε}

/-- A link that goes one layer up. -/
def Climbs (joins : ε → ν → ν → Prop) (depth : ν → ℕ) (link : ε) (x y : ν) : Prop :=
  joins link x y ∧ depth x = depth y + 1

/-- A link that goes one layer down. -/
def Falls (joins : ε → ν → ν → Prop) (depth : ν → ℕ) (link : ε) (x y : ν) : Prop :=
  joins link x y ∧ depth y = depth x + 1

/-- A walk that goes up to some place and down from there. -/
structure UpDown (joins : ε → ν → ν → Prop) (depth : ν → ℕ) (x : ν) (path : List ε) (y : ν) :
    Prop where
  nodup : path.Nodup
  turns : ∃ up down top, path = up ++ down ∧ Walk (Climbs joins depth) x up top ∧
    Walk (Falls joins depth) top down y

theorem depth_le_of_mem (walk : Walk (Climbs joins depth) x path z) (mem : link ∈ path) :
    ∃ a b, Climbs joins depth link a b ∧ depth a ≤ depth x := by
  induction walk with
  | nil => cases mem
  | cons step _ ih =>
      rcases List.mem_cons.mp mem with rfl | later
      · exact ⟨_, _, step, Nat.le_refl _⟩
      · rcases ih later with ⟨a, b, climbs, low⟩
        have lower := step.2
        exact ⟨a, b, climbs, by omega⟩

theorem le_depth_of_mem (walk : Walk (Falls joins depth) x path z) (mem : link ∈ path) :
    ∃ a b, Falls joins depth link a b ∧ depth x ≤ depth a := by
  induction walk with
  | nil => cases mem
  | cons step _ ih =>
      rcases List.mem_cons.mp mem with rfl | later
      · exact ⟨_, _, step, Nat.le_refl _⟩
      · rcases ih later with ⟨a, b, falls, high⟩
        have higher := step.2
        exact ⟨a, b, falls, by omega⟩

theorem nodup_of_climbs (functional : Functional joins)
    (walk : Walk (Climbs joins depth) x path y) : path.Nodup := by
  induction walk with
  | nil => exact List.nodup_nil
  | cons step rest ih =>
      refine List.nodup_cons.mpr ⟨fun again => ?_, ih⟩
      rcases depth_le_of_mem rest again with ⟨a, b, climbs, low⟩
      have same := (functional _ _ _ _ _ step.1 climbs.1).1
      have lower := step.2
      rw [← same] at low
      omega

theorem nodup_of_falls (functional : Functional joins)
    (walk : Walk (Falls joins depth) x path y) : path.Nodup := by
  induction walk with
  | nil => exact List.nodup_nil
  | cons step rest ih =>
      refine List.nodup_cons.mpr ⟨fun again => ?_, ih⟩
      rcases le_depth_of_mem rest again with ⟨a, b, falls, high⟩
      have same := (functional _ _ _ _ _ step.1 falls.1).1
      have higher := step.2
      rw [← same] at high
      omega

/-- A walk up and a walk down pass no link twice. -/
theorem upDown_of_walks (functional : Functional joins)
    (climb : Walk (Climbs joins depth) x up z) (fall : Walk (Falls joins depth) z down y) :
    UpDown joins depth x (up ++ down) y where
  nodup := by
    refine List.nodup_append.mpr
      ⟨nodup_of_climbs functional climb, nodup_of_falls functional fall, ?_⟩
    rintro link inUp _ inDown rfl
    rcases climb.exists_joins inUp with ⟨a, b, climbs⟩
    rcases fall.exists_joins inDown with ⟨a', b', falls⟩
    rcases functional _ _ _ _ _ climbs.1 falls.1 with ⟨rfl, rfl⟩
    have upward := climbs.2
    have downward := falls.2
    omega
  turns := ⟨up, down, z, rfl, climb, fall⟩

/-- The links of the way up, turned round, are a way down. -/
theorem falls_of_climbs {flip : ε → ε} (turn : ∀ link x y, joins link x y → joins (flip link) y x)
    {link : ε} (climbs : Climbs joins depth link x y) : Falls joins depth (flip link) y x :=
  ⟨turn _ _ _ climbs.1, climbs.2⟩

end Layers

/-- Layers of places above a bottom, the last one first, each with the links that reach its places
from the layer below it. -/
inductive Tower (climbs : ε → ν → ν → Prop) (bottom : ν) :
    List ν × List ε → List (List ν × List ε) → Prop
  | base : Tower climbs bottom ([bottom], []) []
  | layer {nodes : List ν} {links : List ε} {last : List ν × List ε}
      {below : List (List ν × List ε)} (rest : Tower climbs bottom last below)
      (reached : List.Forall₂ (fun link y => ∃ x ∈ last.1, climbs link x y) links nodes) :
      Tower climbs bottom (nodes, links) (last :: below)

end Walks
