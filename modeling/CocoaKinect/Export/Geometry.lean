import CocoaKinect.Export.Coherence
import CocoaKinect.Lib.Triangles

/-!
# Where the vertices are

The world coordinates that the exporters write, with exact arithmetic and
with `depthLookUp` as it is filled at launch.

* `launchTable_pos` and `launchTable_mono`: the entries of the table are
  positive and grow with the depth.
* `vec_gridPoint`: a vertex that is not pushed back lies on the ray of its
  grid point (`ray`), at the distance that the table has for its depth.
* `vec_near` and `vec_far`: the corners of the box lie on two planes, `boxZ`
  and five units behind it, at the coordinates `boxX` and `boxY`.
-/

namespace CocoaKinect

open Lib

/-! ## The table -/

/-- `depthLookUp` as `applicationDidFinishLaunching:` fills it. -/
noncomputable def launchTable : Nat → ℝ :=
  fillDepthLookUp exactArith Settings.launch

/-- What the conversion divides by. -/
noncomputable def denominator (d : Nat) : ℝ :=
  3.3309495161 - 0.0030711016 * (min d 760 : Nat)

theorem denominator_pos (d : Nat) : 0 < denominator d := by
  have hle : ((min d 760 : Nat) : ℝ) ≤ 760 := by
    exact_mod_cast Nat.min_le_right d 760
  unfold denominator
  linarith

theorem denominator_antitone {d e : Nat} (h : d ≤ e) :
    denominator e ≤ denominator d := by
  have hle : ((min d 760 : Nat) : ℝ) ≤ (min e 760 : Nat) := by
    exact_mod_cast min_le_min_right 760 h
  unfold denominator
  linarith

theorem launchTable_eq (d : Nat) : launchTable d = (denominator d)⁻¹ := by
  have hclamp : clampDepth 0 760 d = min d 760 := by
    simp only [clampDepth]
    split_ifs <;> omega
  have hlt : min d 760 < 2047 := by omega
  show rawDepthToMeters exactArith 0 760 d = _
  simp only [rawDepthToMeters, hclamp, if_pos hlt, exactArith, denominator]
  norm_num
  ring

/-- The entries of the table are positive. -/
theorem launchTable_pos (d : Nat) : 0 < launchTable d := by
  rw [launchTable_eq]
  exact inv_pos.2 (denominator_pos d)

/-- The entries of the table grow with the depth. -/
theorem launchTable_mono : Monotone launchTable := by
  intro d e h
  rw [launchTable_eq, launchTable_eq]
  exact inv_anti₀ (denominator_pos e) (denominator_antitone h)

/-! ## Rays -/

/-- A point as a vector. -/
def VectorP.vec {F : Type} (p : VectorP F) : Fin 3 → F :=
  ![p.x, p.y, p.z]

/-- The corner of a facet in world coordinates. -/
noncomputable def Vertex.vec (v : Vertex) : Fin 3 → ℝ :=
  (v.world exactArith launchTable).vec

/-- The slope of the ray through column `x`. -/
noncomputable def slopeX (x : Nat) : ℝ :=
  (x - 339.30780975300314) * (1 / 594.21434211923247) * 80

/-- The slope of the ray through row `y`. -/
noncomputable def slopeY (y : Nat) : ℝ :=
  (y - 242.73913761751615) * (1 / 591.04053696870778) * 80

/-- The ray through a grid point. -/
noncomputable def ray (x y : Nat) : Fin 3 → ℝ :=
  ![slopeX x, slopeY y, -80]

theorem slopeX_strictMono : StrictMono slopeX := by
  intro x x' h
  have hlt : (x : ℝ) < x' := by exact_mod_cast h
  unfold slopeX
  linarith

theorem slopeY_strictMono : StrictMono slopeY := by
  intro y y' h
  have hlt : (y : ℝ) < y' := by exact_mod_cast h
  unfold slopeY
  linarith

/-- `toWorld` scales the ray through a grid point. -/
theorem toWorld_eq (x y : Nat) (t : ℝ) :
    toWorld exactArith x y t =
      ⟨t * slopeX x, t * slopeY y, t * -80⟩ := by
  have hone : ((1.0 : ℚ) : ℝ) = 1 := by norm_num
  simp only [toWorld, exactArith, id, slopeX, slopeY, VectorP.mk.injEq, hone]
  push_cast
  refine ⟨?_, ?_, ?_⟩ <;> ring

/-- A vertex that is not pushed back lies on the ray of its grid point. -/
theorem vec_gridPoint (x y d : Nat) :
    (⟨x, y, d, false⟩ : Vertex).vec = launchTable d • ray x y := by
  have hworld : (⟨x, y, d, false⟩ : Vertex).world exactArith launchTable =
      toWorld exactArith x y (launchTable d) := rfl
  rw [Vertex.vec, hworld, toWorld_eq, ray, Matrix.smul_vec3]
  rfl

/-- A vertex that is pushed back lies five units behind its grid point. -/
theorem vec_pushed (x y d : Nat) :
    (⟨x, y, d, true⟩ : Vertex).vec =
      launchTable d • ray x y - ![0, 0, 5] := by
  rw [← vec_gridPoint]
  funext i
  fin_cases i <;> simp [Vertex.vec, Vertex.world, VectorP.vec, exactArith]

/-! ## The box -/

section Box

variable (st : Settings)

/-- The world coordinates of column `x`, of row `y` and of the sheet's side
of the box, all at `_maxDepth`. -/
noncomputable def boxX (x : Nat) : ℝ :=
  launchTable st.maxDepth * slopeX x

noncomputable def boxY (y : Nat) : ℝ :=
  launchTable st.maxDepth * slopeY y

noncomputable def boxZ : ℝ :=
  launchTable st.maxDepth * -80

theorem vec_near (x y : Nat) :
    (near st x y).vec = ![boxX st x, boxY st y, boxZ st] := by
  rw [near, vec_gridPoint, ray, Matrix.smul_vec3]
  rfl

theorem vec_far (x y : Nat) :
    (far st x y).vec = ![boxX st x, boxY st y, boxZ st - 5] := by
  rw [far, vec_pushed, ray, Matrix.smul_vec3, Matrix.sub_cons]
  simp [boxX, boxY, boxZ]

theorem boxX_strictMono : StrictMono (boxX st) := by
  intro x x' h
  exact mul_lt_mul_of_pos_left (slopeX_strictMono h) (launchTable_pos _)

theorem boxY_strictMono : StrictMono (boxY st) := by
  intro y y' h
  exact mul_lt_mul_of_pos_left (slopeY_strictMono h) (launchTable_pos _)

end Box

end CocoaKinect
