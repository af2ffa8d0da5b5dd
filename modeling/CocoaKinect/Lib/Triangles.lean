import Mathlib.Data.Real.Basic
import Mathlib.LinearAlgebra.CrossProduct
import Mathlib.LinearAlgebra.Matrix.DotProduct

/-!
# Oriented triangles in space

The cross product of two sides of a triangle is its area vector, and the
determinant of its corners is six times the signed volume of the cone from
the origin over it.

* `cone_eq_dot`: the cone is measured along the area vector, so a triangle
  whose cone is not flat is not degenerate (`areaVector_ne_zero_of_cone`).
* `cone_smul`: moving the corners along their rays from the origin scales the
  cone.
* `cone_plane`: over a plane that is parallel to the first two axes the cone
  follows the orientation of the three points in the plane.
* `rightHanded_neg_iff`: the opposite of an area vector obeys the right hand
  rule only for a degenerate triangle.
-/

namespace CocoaKinect.Lib

open Matrix

section Ring

variable {K : Type*} [CommRing K] (a b c : Fin 3 → K)

/-- Twice the area of a triangle, as a vector by the right hand rule. -/
def areaVector : Fin 3 → K :=
  (b - a) ⨯₃ (c - a)

/-- Six times the signed volume of the cone from the origin over a
triangle. -/
def cone : K :=
  det (of ![a, b, c])

/-- Twice the signed area of the triangle `(x₀, y₀)`, `(x₁, y₁)`,
`(x₂, y₂)` in the plane. -/
def turn (x₀ y₀ x₁ y₁ x₂ y₂ : K) : K :=
  (x₁ - x₀) * (y₂ - y₀) - (x₂ - x₀) * (y₁ - y₀)

theorem areaVector_zero :
    areaVector a b c 0 = turn (a 1) (a 2) (b 1) (b 2) (c 1) (c 2) := by
  simp only [areaVector, turn, cross_apply, Pi.sub_apply, cons_val_zero]
  ring

theorem areaVector_one :
    areaVector a b c 1 = turn (a 2) (a 0) (b 2) (b 0) (c 2) (c 0) := by
  simp only [areaVector, turn, cross_apply, Pi.sub_apply, cons_val_one,
    cons_val_zero]
  ring

theorem areaVector_two :
    areaVector a b c 2 = turn (a 0) (a 1) (b 0) (b 1) (c 0) (c 1) := by
  simp only [areaVector, turn, cross_apply, Pi.sub_apply, cons_val]
  ring

theorem areaVector_eq :
    areaVector a b c =
      ![turn (a 1) (a 2) (b 1) (b 2) (c 1) (c 2),
        turn (a 2) (a 0) (b 2) (b 0) (c 2) (c 0),
        turn (a 0) (a 1) (b 0) (b 1) (c 0) (c 1)] := by
  rw [← areaVector_zero, ← areaVector_one, ← areaVector_two]
  funext i
  fin_cases i <;> rfl

theorem cone_apply :
    cone a b c = a 0 * (b 1 * c 2 - b 2 * c 1) -
      a 1 * (b 0 * c 2 - b 2 * c 0) + a 2 * (b 0 * c 1 - b 1 * c 0) := by
  rw [cone, det_fin_three]
  simp only [of_apply, cons_val]
  ring

/-- The cone is the first corner measured along the area vector. -/
theorem cone_eq_dot : cone a b c = a ⬝ᵥ areaVector a b c := by
  rw [cone_apply, vec3_dotProduct, areaVector_zero, areaVector_one,
    areaVector_two]
  simp only [turn]
  ring

theorem areaVector_ne_zero_of_cone (h : cone a b c ≠ 0) :
    areaVector a b c ≠ 0 := by
  intro hzero
  rw [cone_eq_dot, hzero, dotProduct_zero] at h
  exact h rfl

/-- Corners that move along their rays scale the cone. -/
theorem cone_smul (s t u : K) :
    cone (s • a) (t • b) (u • c) = s * t * u * cone a b c := by
  simp only [cone_apply, Pi.smul_apply, smul_eq_mul]
  ring

/-- The cone over a triangle in the plane at height `z`. -/
theorem cone_plane (x₀ y₀ x₁ y₁ x₂ y₂ z : K) :
    cone ![x₀, y₀, z] ![x₁, y₁, z] ![x₂, y₂, z] =
      z * turn x₀ y₀ x₁ y₁ x₂ y₂ := by
  simp only [cone_apply, turn, cons_val]
  ring

end Ring

section Ordered

variable {K : Type*} [Field K] [LinearOrder K] [IsStrictOrderedRing K]
  {a b c : Fin 3 → K}

/-- The vector is a positive multiple of the area vector. -/
def RightHanded (a b c n : Fin 3 → K) : Prop :=
  ∃ t : K, 0 < t ∧ n = t • areaVector a b c

/-- The opposite vector never is, unless the triangle is degenerate. -/
theorem rightHanded_neg_iff {s : K} (hs : 0 < s) :
    RightHanded a b c (-(s • areaVector a b c)) ↔ areaVector a b c = 0 := by
  constructor
  · intro h
    rcases h with ⟨t, ht, heq⟩
    have hsum : (t + s) • areaVector a b c = 0 := by
      rw [add_smul, ← heq, neg_add_cancel]
    exact (smul_eq_zero.1 hsum).resolve_left (add_pos ht hs).ne'
  · intro h
    refine ⟨1, one_pos, ?_⟩
    rw [h, smul_zero, smul_zero, neg_zero]

end Ordered

end CocoaKinect.Lib
