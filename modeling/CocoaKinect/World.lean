import Mathlib.Analysis.Real.Sqrt
import CocoaKinect.Frame

/-!
# From depth values to world coordinates

`rawDepthToMeters:`, `toWorld` and `calcNormal` of `AppDelegate.m`, over an
arbitrary machine arithmetic.  `Arith D F` lists the operations that the C
code uses on `double` (`D`) and `float` (`F`), with every conversion written
out.  The file format does not depend on how they round, so it is verified
for all of them; statements about coordinates are made for `exactArith`,
where both types are the real numbers and nothing rounds.
-/

namespace CocoaKinect

/-! ## Arithmetic -/

/-- The `double` operations (`D`), the `float` operations (`F`) and the
conversions between the two. -/
structure Arith (D F : Type) where
  ofLiteral : ℚ → D
  ofInt : ℤ → D
  add : D → D → D
  sub : D → D → D
  mul : D → D → D
  div : D → D → D
  sqrt : D → D
  toFloat : D → F
  toDouble : F → D
  floatOfInt : ℤ → F
  fadd : F → F → F
  fsub : F → F → F
  fmul : F → F → F
  fdiv : F → F → F

/-- Exact arithmetic: no operation rounds. -/
noncomputable def exactArith : Arith ℝ ℝ where
  ofLiteral q := q
  ofInt n := n
  add := (· + ·)
  sub := (· - ·)
  mul := (· * ·)
  div := (· / ·)
  sqrt := Real.sqrt
  toFloat := id
  toDouble := id
  floatOfInt n := n
  fadd := (· + ·)
  fsub := (· - ·)
  fmul := (· * ·)
  fdiv := (· / ·)

/-- The struct `VectorP` of `AppDelegate.h`. -/
structure VectorP (F : Type) where
  x : F
  y : F
  z : F

variable {D F : Type}

/-! ## The conversion of one pixel -/

/-- The two `if` statements that open `rawDepthToMeters:`. -/
def clampDepth (minDepth maxDepth depthValue : Nat) : Nat :=
  let depthValue := if depthValue < minDepth then minDepth else depthValue
  if depthValue > maxDepth then maxDepth else depthValue

/-- `rawDepthToMeters:` under the limits `_minDepth` and `_maxDepth`. -/
def rawDepthToMeters (A : Arith D F) (minDepth maxDepth depthValue : Nat) : D :=
  let depthValue := clampDepth minDepth maxDepth depthValue
  if depthValue < 2047 then
    A.div (A.ofLiteral 1.0)
      (A.add (A.mul (A.ofInt depthValue) (A.ofLiteral (-0.0030711016)))
        (A.ofLiteral 3.3309495161))
  else A.toDouble (A.floatOfInt 0)

/-- `toWorld`. -/
def toWorld (A : Arith D F) (x y : Nat) (depths : D) : VectorP F :=
  let fx_d := A.div (A.ofLiteral 1.0) (A.ofLiteral 594.21434211923247)
  let fy_d := A.div (A.ofLiteral 1.0) (A.ofLiteral 591.04053696870778)
  let cx_d := A.ofLiteral 339.30780975300314
  let cy_d := A.ofLiteral 242.73913761751615
  { y := A.fmul
      (A.toFloat (A.mul (A.mul (A.sub (A.ofInt y) cy_d) depths) fy_d))
      (A.floatOfInt 80)
    x := A.fmul
      (A.toFloat (A.mul (A.mul (A.sub (A.ofInt x) cx_d) depths) fx_d))
      (A.floatOfInt 80)
    z := A.fmul (A.toFloat (A.mul (A.ofInt (-1)) depths)) (A.floatOfInt 80) }

/-! ## The normal of a facet -/

/-- `calcNormal`: what it stores in `poly[3]`, computed from `poly[0]`,
`poly[1]` and `poly[2]`. -/
def calcNormal (A : Arith D F) (p0 p1 p2 : VectorP F) : VectorP F :=
  let tx := A.fsub (A.fmul (A.fsub p2.y p0.y) (A.fsub p1.z p0.z))
    (A.fmul (A.fsub p1.y p0.y) (A.fsub p2.z p0.z))
  let ty := A.fsub (A.fmul (A.fsub p2.z p0.z) (A.fsub p1.x p0.x))
    (A.fmul (A.fsub p1.z p0.z) (A.fsub p2.x p0.x))
  let tz := A.fsub (A.fmul (A.fsub p2.x p0.x) (A.fsub p1.y p0.y))
    (A.fmul (A.fsub p1.x p0.x) (A.fsub p2.y p0.y))
  let fac1 := A.toFloat (A.sqrt (A.toDouble
    (A.fadd (A.fadd (A.fmul tx tx) (A.fmul ty ty)) (A.fmul tz tz))))
  { x := A.fdiv tx fac1, y := A.fdiv ty fac1, z := A.fdiv tz fac1 }

/-! ## Facts about the clamp -/

theorem clampDepth_le (minDepth maxDepth d : Nat) :
    clampDepth minDepth maxDepth d ≤ maxDepth := by
  rw [clampDepth]
  split_ifs <;> omega

/-! ## Exact arithmetic -/

section Exact

/-- The denominator of the conversion never vanishes: scaled to integers it
is odd. -/
theorem denominator_ne_zero (c : Nat) :
    (c : ℝ) * ((-0.0030711016 : ℚ) : ℝ) + ((3.3309495161 : ℚ) : ℝ) ≠ 0 := by
  intro h
  have hq : (c : ℚ) * (-0.0030711016) + 3.3309495161 = 0 := by
    exact_mod_cast h
  have hz : (c : ℤ) * 30711016 = 33309495161 := by
    have hscaled : (c : ℚ) * 30711016 = 33309495161 := by linarith
    exact_mod_cast hscaled
  omega

/-- With exact arithmetic, different clamped depths are at different
distances. -/
theorem rawDepthToMeters_inj {lo hi lo' hi' d d' : Nat} (hhi : hi < 2048)
    (hhi' : hi' < 2048) :
    rawDepthToMeters exactArith lo hi d = rawDepthToMeters exactArith lo' hi' d' ↔
      clampDepth lo hi d = clampDepth lo' hi' d' := by
  have hle := clampDepth_le lo hi d
  have hle' := clampDepth_le lo' hi' d'
  simp only [rawDepthToMeters, exactArith]
  generalize clampDepth lo hi d = c at *
  generalize clampDepth lo' hi' d' = c' at *
  have hc := denominator_ne_zero c
  have hc' := denominator_ne_zero c'
  have hone : ((1.0 : ℚ) : ℝ) = 1 := by norm_num
  have hzero : ((0 : ℤ) : ℝ) = 0 := Int.cast_zero
  constructor
  · intro h
    rw [hone, hzero] at h
    split_ifs at h with hlt hlt' hlt'
    · -- Both depths are converted, and the conversion is one to one.
      rw [one_div, one_div, inv_inj, add_left_inj] at h
      have hfac : ((-0.0030711016 : ℚ) : ℝ) ≠ 0 := by norm_num
      exact_mod_cast mul_right_cancel₀ hfac h
    · exact absurd h (one_div_ne_zero hc)
    · exact absurd h.symm (one_div_ne_zero hc')
    · omega
  · rintro rfl
    rfl

/-- With exact arithmetic, a vertex tells its distance. -/
theorem toWorld_inj {x y : Nat} {a b : ℝ} :
    toWorld exactArith x y a = toWorld exactArith x y b ↔ a = b := by
  constructor
  · intro h
    have hz := congrArg VectorP.z h
    simp only [toWorld, exactArith] at hz
    push_cast at hz
    simp only [id] at hz
    linarith
  · rintro rfl
    rfl

end Exact

end CocoaKinect
